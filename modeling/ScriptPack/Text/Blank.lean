/-!
Blank characters: the Unicode space separators, the line and paragraph separators, the ASCII control
blanks and the byte order mark.
-/

namespace ScriptPack.Text

def isBlank (c : Char) : Bool :=
  let n := c.toNat
  (0x09 ≤ n && n ≤ 0x0d) || n == 0x20 || n == 0xa0 || n == 0x1680 || (0x2000 ≤ n && n ≤ 0x200a)
    || n == 0x2028 || n == 0x2029 || n == 0x202f || n == 0x205f || n == 0x3000 || n == 0xfeff

def dropBlanks (text : List Char) : List Char := text.dropWhile isBlank

/-- The text without blanks at either end. -/
def trim (text : List Char) : List Char := (dropBlanks (dropBlanks text).reverse).reverse

end ScriptPack.Text

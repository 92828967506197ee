/-!
Names in ASCII: a letter or an underscore, and then letters, digits and underscores.
-/

namespace ScriptPack.Text

def isNameStart (c : Char) : Bool := c.isAlpha || c == '_'

def isNamePart (c : Char) : Bool := c.isAlphanum || c == '_'

def isName : List Char → Bool
  | [] => false
  | c :: rest => isNameStart c && rest.all isNamePart

end ScriptPack.Text

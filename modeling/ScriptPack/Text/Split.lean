/-!
Splitting text at a separator and taking words off its front.
-/

namespace ScriptPack.Text

/-- The parts of a text between separators; there is always one more part than separators. -/
def parts (separator : Char) : List Char → List (List Char)
  | [] => [[]]
  | c :: rest =>
    match parts separator rest with
    | [] => [[c]]
    | part :: others => if c == separator then [] :: part :: others else (c :: part) :: others

/-- The text behind a word at its front. -/
def after? (word text : List Char) : Option (List Char) :=
  if word.isPrefixOf text then some (text.drop word.length) else none

def startsWith (text start : String) : Bool := start.toList.isPrefixOf text.toList

def endsWith (text ending : String) : Bool := ending.toList.isSuffixOf text.toList

end ScriptPack.Text

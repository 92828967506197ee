import ScriptPack.Json.Value
import ScriptPack.Number.Decimal

/-!
Writing JSON text, on one line or indented. Strings are written with the short escapes where there
are any; numbers that are not finite are written as null.
-/

namespace ScriptPack.Json

def escape (c : Char) : List Char :=
  if c == '"' then ['\\', '"']
  else if c == '\\' then ['\\', '\\']
  else if c == '\x08' then ['\\', 'b']
  else if c == '\x0c' then ['\\', 'f']
  else if c == '\n' then ['\\', 'n']
  else if c == '\r' then ['\\', 'r']
  else if c == '\t' then ['\\', 't']
  else if c.toNat < 0x20 then
    '\\' :: 'u' :: '0' :: '0' :: (if c.toNat < 0x10 then ['0'] else []) ++ Nat.toDigits 16 c.toNat
  else [c]

def quoted (s : String) : List Char := '"' :: (s.toList.flatMap escape ++ ['"'])

def numberText : Number → List Char
  | .finite q => (Number.text (.finite q)).toList
  | _ => "null".toList

/-- What stands between the parts of arrays and objects. -/
structure Style where
  /-- The number of blanks for one level of nesting; without indentation all is on one line. -/
  indent : Nat

def Style.line (style : Style) (depth : Nat) : List Char :=
  if style.indent == 0 then [] else '\n' :: List.replicate (style.indent * depth) ' '

def Style.colon (style : Style) : List Char := if style.indent == 0 then [':'] else [':', ' ']

mutual

/-- The text of a value at a depth of nesting, in front of `after`. -/
def write (style : Style) (depth : Nat) (after : List Char) : Json → List Char
  | null => "null".toList ++ after
  | bool b => (if b then "true" else "false").toList ++ after
  | number n => numberText n ++ after
  | string s => quoted s ++ after
  | array [] => '[' :: ']' :: after
  | array (item :: items) =>
    '[' :: (style.line (depth + 1)
      ++ write style (depth + 1)
        (writeItems style (depth + 1) (style.line depth ++ ']' :: after) items) item)
  | object [] => '\x7b' :: '\x7d' :: after
  | object ((key, value) :: fields) =>
    '\x7b' :: (style.line (depth + 1) ++ quoted key ++ style.colon
      ++ write style (depth + 1)
        (writeFields style (depth + 1) (style.line depth ++ '\x7d' :: after) fields) value)

/-- The remaining items of an array, each with the comma before it. -/
def writeItems (style : Style) (depth : Nat) (after : List Char) : List Json → List Char
  | [] => after
  | item :: items =>
    ',' :: (style.line depth ++ write style depth (writeItems style depth after items) item)

/-- The remaining fields of an object, each with the comma before it. -/
def writeFields (style : Style) (depth : Nat) (after : List Char) :
    List (String × Json) → List Char
  | [] => after
  | (key, value) :: fields =>
    ',' :: (style.line depth ++ quoted key ++ style.colon
      ++ write style depth (writeFields style depth after fields) value)

end

/-- The text of a value on one line. -/
def compact (value : Json) : String := String.ofList (write ⟨0⟩ 0 [] value)

/-- The text of a value with two blanks for each level. -/
def indented (value : Json) : String := String.ofList (write ⟨2⟩ 0 [] value)

end ScriptPack.Json

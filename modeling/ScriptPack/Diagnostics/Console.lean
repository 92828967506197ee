import ScriptPack.Diagnostics.Columns
import ScriptPack.Diagnostics.Warning

/-!
Lines as they appear on a terminal. Events are written as JSON behind a label. A text in the debug
log is written as it is; other values are shown in full down to three levels, on one line when they
are short, and long lists in columns.
-/

namespace ScriptPack.Console

def quoteMark (text : List Char) : Char :=
  if !text.contains '\'' then '\''
  else if !text.contains '"' then '"'
  else if !text.contains (Char.ofNat 0x60) then Char.ofNat 0x60
  else '\''

def escape (quote c : Char) : List Char :=
  if c == quote || c == '\\' then ['\\', c]
  else if c == '\n' then ['\\', 'n']
  else if c == '\t' then ['\\', 't']
  else if c == '\r' then ['\\', 'r']
  else if c == '\x08' then ['\\', 'b']
  else if c == '\x0b' then ['\\', 'v']
  else if c == '\x0c' then ['\\', 'f']
  else if c.toNat < 0x20 || (0x7f ≤ c.toNat && c.toNat < 0xa0) then
    let digits := (Nat.toDigits 16 c.toNat).map Char.toUpper
    '\\' :: 'x' :: (List.replicate (2 - digits.length) '0' ++ digits)
  else [c]

def quoted (text : String) : List Char :=
  let quote := quoteMark text.toList
  quote :: (text.toList.flatMap (escape quote) ++ [quote])

/-- A name of a field, quoted unless it is a plain word. -/
def fieldName (name : String) : List Char :=
  let plain (c : Char) : Bool := c.isAlphanum || c == '_' || c == '$'
  match name.toList with
  | [] => quoted name
  | c :: rest => if plain c && !c.isDigit && rest.all plain then c :: rest else quoted name

def withCommas : List (List Char) → List Char → List Char
  | [], _ => []
  | [part], _ => part
  | part :: rest, between => part ++ ',' :: (between ++ withCommas rest between)

/-- Puts parts between brackets, each on a line. -/
def onLines (opening closing : Char) (indent : Nat) (parts : List (List Char)) : List Char :=
  let line := '\n' :: List.replicate indent ' '
  opening :: (line ++ [' ', ' '] ++ withCommas parts (line ++ [' ', ' ']) ++ line ++ [closing])

/-- Puts parts between brackets, on one line if that is short enough and nothing in it is nested
more than twice. -/
def enclose (opening closing : Char) (indent nesting : Nat) (parts : List (List Char)) :
    List Char :=
  let length := parts.foldl (fun length part => length + part.length) 0
  let width := length + 2 * parts.length + indent + 11
  let fits := decide (width ≤ lineLimit) && !(parts.any (·.contains '\n'))
  if decide (nesting < 3) && fits then
    opening :: ' ' :: (withCommas parts [' '] ++ [' ', closing])
  else onLines opening closing indent parts

/-- How many levels of brackets are shown of a value. Of several values inside it the last one that
has brackets counts. -/
def nesting (depth : Nat) : Json → Nat
  | .array (item :: items) => if depth = 0 then 0 else levels (depth - 1) (item :: items) + 1
  | .object (field :: fields) =>
    if depth = 0 then 0 else fieldLevels (depth - 1) (field :: fields) + 1
  | _ => 0
where
  levels (depth : Nat) : List Json → Nat
    | [] => 0
    | item :: items => lastOf (nesting depth item) (levels depth items)
  fieldLevels (depth : Nat) : List (String × Json) → Nat
    | [] => 0
    | (_, value) :: fields => lastOf (nesting depth value) (fieldLevels depth fields)
  lastOf (first rest : Nat) : Nat := if rest = 0 then first else rest

/-- A list is shown up to this length. -/
def itemLimit : Nat := 100

def isNumber : Json → Bool
  | .number _ => true
  | _ => false

/-- What is said of so many items that are not shown. -/
def remark : Nat → List (List Char)
  | 0 => []
  | 1 => ["... 1 more item".toList]
  | n => [("... " ++ toString n ++ " more items").toList]

/-- A list with the given items, which are shown by `parts`. More than six are laid out in columns
where that is of use. -/
def encloseItems (indent nesting : Nat) (items : List Json) (parts : List (List Char)) :
    List Char :=
  let remarks := remark (items.length - itemLimit)
  let entries := parts.length + remarks.length
  let cells := if 6 < entries then inColumns (items.all isNumber) indent entries parts else parts
  if cells.length = parts.length then enclose '[' ']' indent nesting (cells ++ remarks)
  else onLines '[' ']' indent (cells ++ remarks)

mutual

/-- A value as it is shown at an indentation, with `depth` more levels in full. -/
def inspect (indent depth : Nat) : Json → List Char
  | .null => "null".toList
  | .bool b => (if b then "true" else "false").toList
  | .number n => n.text.toList
  | .string s => quoted s
  | .array [] => ['[', ']']
  | .object [] => ['\x7b', '\x7d']
  | .array (item :: items) =>
    match depth with
    | 0 => "[Array]".toList
    | depth + 1 =>
      encloseItems indent (nesting.levels depth ((item :: items).take itemLimit)) (item :: items)
        (inspectItems (indent + 2) depth itemLimit (item :: items))
  | .object (field :: fields) =>
    match depth with
    | 0 => "[Object]".toList
    | depth + 1 =>
      enclose '\x7b' '\x7d' indent (nesting.fieldLevels depth (field :: fields))
        (inspectFields (indent + 2) depth (field :: fields))

/-- The first items of a list, up to a number of them. -/
def inspectItems (indent depth : Nat) : Nat → List Json → List (List Char)
  | 0, _ => []
  | _, [] => []
  | room + 1, item :: items => inspect indent depth item :: inspectItems indent depth room items

def inspectFields (indent depth : Nat) : List (String × Json) → List (List Char)
  | [] => []
  | (name, value) :: fields =>
    (fieldName name ++ ':' :: ' ' :: inspect indent depth value)
      :: inspectFields indent depth fields

end

/-- A value as it is shown in the debug log. -/
def logged : Json → String
  | .string s => s
  | value => String.ofList (inspect 0 3 value)

def trace (level : Level) (event : String) (data : Option Json) : String :=
  "[exepack:trace] " ++ Trace.format 0 0 level.name event data

/-- The text of a line, and where it goes. -/
def render : Line → Stream × String
  | .event level event data => (.out, trace level event data ++ "\n")
  | .log stream scope values =>
    (stream, " ".intercalate (scope.label :: values.map logged) ++ "\n")
  | .text stream text => (stream, text)

end ScriptPack.Console

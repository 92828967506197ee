import ScriptPack.Python.Import
import ScriptPack.Text.Blank
import ScriptPack.Text.Split
import ScriptPack.Text.Word

/-!
Finding imports line by line, without a grammar. A line counts if it begins, after blanks, with an
`import` or a `from … import`; what other lines hold does not matter. Names are ASCII here.
-/

namespace ScriptPack.Python.LinePatterns

open Text (isBlank dropBlanks trim parts after? isNameStart isNamePart)

/-- A dotted name at the front of the text, and what follows it. A dot that no name follows is not
part of it. -/
def dottedPrefix? (text : List Char) : Option (List Char × List Char) :=
  match text with
  | [] => none
  | c :: rest =>
    if isNameStart c then
      let name := c :: rest.takeWhile isNamePart
      match h : rest.dropWhile isNamePart with
      | '.' :: behind =>
        have : behind.length < rest.length := by
          have hlength := (List.dropWhile_sublist (l := rest) isNamePart).length_le
          rw [h] at hlength
          exact hlength
        match dottedPrefix? behind with
        | some (more, after) => some (name ++ '.' :: more, after)
        | none => some (name, '.' :: behind)
      | after => some (name, after)
    else none
termination_by text.length

/-- Whether the text is one dotted name from end to end. -/
def isDotted (text : List Char) : Bool :=
  match dottedPrefix? text with
  | some (_, []) => true
  | _ => false

/-- The text behind one or more blanks. -/
def afterBlanks? : List Char → Option (List Char)
  | [] => none
  | c :: rest => if isBlank c then some (dropBlanks rest) else none

/-- The module of a line that reads `from module import`. -/
def fromModule? (line : List Char) : Option (List Char) := do
  let behindFrom ← (← after? "from".toList (dropBlanks line)) |> afterBlanks?
  let (module, rest) ← dottedPrefix? behindFrom
  let behindImport ← (← afterBlanks? rest) |> after? "import".toList
  match behindImport with
  | [] => some module
  | c :: _ => if isNamePart c then none else some module

/-- The items of a line that reads `import items`, up to a comment or another statement. -/
def importItems? (line : List Char) : Option (List Char) := do
  let items ← (← after? "import".toList (dropBlanks line)) |> afterBlanks?
  some (items.takeWhile fun c => c != '#' && c != ';')

/-- Whether the text behind an item's name renames it. -/
def isRenaming (text : List Char) : Bool :=
  match after? "as".toList (dropBlanks text) with
  | some (c :: _) => isBlank c
  | _ => false

/-- The module of one item of an `import` line. -/
def itemModule? (item : List Char) : Option (List Char) :=
  let item := trim item
  let name := item.takeWhile (!isBlank ·)
  let rest := item.dropWhile (!isBlank ·)
  if isDotted name && (rest.isEmpty || isRenaming rest) then some name else none

def lineImports (number : Nat) (line : List Char) : List Import :=
  match fromModule? line with
  | some module =>
    if module == "__future__".toList then [] else [⟨.from, String.ofList module, number⟩]
  | none =>
    match importItems? line with
    | none => []
    | some items => (parts ',' items).filterMap fun item =>
      (itemModule? item).map fun module => ⟨.plain, String.ofList module, number⟩

/-- The lines of a text. A carriage return in front of a line feed belongs to the line's end. -/
def lines : List Char → List (List Char)
  | [] => [[]]
  | '\r' :: '\n' :: rest => [] :: lines rest
  | c :: rest =>
    if c == '\n' then [] :: lines rest
    else
      match lines rest with
      | [] => [[c]]
      | line :: others => (c :: line) :: others

def scanLines (source : List Char) : List Import :=
  (lines source).zipIdx.flatMap fun (line, i) => lineImports (i + 1) line

end ScriptPack.Python.LinePatterns

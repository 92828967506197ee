import ScriptPack.Proofs.Python.Tokens
import ScriptPack.Python.Import
import ScriptPack.Text.Blank

/-!
Plain import files: lines with an `import`, a `from … import` or a `from __future__ import`, comments
and empty lines. This is how they are written, and what they import.
-/

namespace ScriptPack.Python.ImportFile

open Lexer (Ends IsNote)
open Text (isBlank isName isNamePart)

/-- A name in ASCII that is no keyword, neither a reserved nor a soft one, in either major version. -/
structure Name where
  text : List Char
  ascii : isName text = true
  free : Terminal.keywords.lookup (String.ofList text) = none

/-- Names with dots in front of them. -/
def dotted (names : List Name) : List Char := names.flatMap fun name => '.' :: name.text

/-- One or more names with dots between them. -/
structure DottedPath where
  head : Name
  tail : List Name

def DottedPath.text (path : DottedPath) : List Char := path.head.text ++ dotted path.tail

/-- What a statement lists: a module or a member of one, and perhaps a new name for it. -/
structure Item where
  path : DottedPath
  alias? : Option Name

def Item.text (item : Item) : List Char :=
  match item.alias? with
  | none => item.path.text
  | some name => item.path.text ++ " as ".toList ++ name.text

/-- Items with commas in front of them. -/
def listed (items : List Item) : List Char := items.flatMap fun item => ", ".toList ++ item.text

/-- One or more items with commas between them. -/
structure Items where
  first : Item
  others : List Item

def Items.text (items : Items) : List Char := items.first.text ++ listed items.others

def Items.all (items : Items) : List Item := items.first :: items.others

/-- Members of a module, each with its new name if it has one. -/
structure Members where
  first : Name × Option Name
  others : List (Name × Option Name)

def Members.items (members : Members) : Items :=
  let item (member : Name × Option Name) : Item := ⟨⟨member.1, []⟩, member.2⟩
  ⟨item members.first, members.others.map item⟩

/-- Names of the compiler's own directives. -/
structure Directives where
  first : Name
  others : List Name

def Directives.items (directives : Directives) : Items :=
  let item (name : Name) : Item := ⟨⟨name, []⟩, none⟩
  ⟨item directives.first, directives.others.map item⟩

inductive Statement
  | plain (items : Items)
  | from (module : DottedPath) (members : Members)
  | future (directives : Directives)

namespace Statement

/-- A statement up to its list. -/
def lead : Statement → List Char
  | plain _ => "import".toList
  | .from module _ => "from ".toList ++ module.text ++ " import".toList
  | future _ => "from __future__ import".toList

def items : Statement → Items
  | plain items => items
  | .from _ members => members.items
  | future directives => directives.items

def text (s : Statement) : List Char := s.lead ++ ' ' :: s.items.text

/-- What a statement imports, given the number of its line. -/
def imports (number : Nat) : Statement → List Import
  | plain items => items.all.map fun item => ⟨.plain, String.ofList item.path.text, number⟩
  | .from module _ => [⟨.from, String.ofList module.text, number⟩]
  | future _ => []

end Statement

/-- A comment of printable ASCII characters, without its sign. -/
structure Note where
  text : List Char
  printable : ∀ c ∈ text, ' ' ≤ c ∧ c ≤ '~'

/-- What a line has behind its statement: nothing, or two blanks and a comment. -/
def noteText : Option Note → List Char
  | none => []
  | some note => "  #".toList ++ note.text

inductive Line
  | empty
  | comment (note : Note)
  | statement (s : Statement) (note? : Option Note)

def Line.text : Line → List Char
  | empty => []
  | comment note => '#' :: note.text
  | statement s note? => s.text ++ noteText note?

def Line.imports (number : Nat) : Line → List Import
  | statement s _ => s.imports number
  | _ => []

/-- The text of a file. -/
def text (lines : List Line) : List Char := linesText (lines.map (·.text))

/-- What a file imports, line by line. -/
def imports (lines : List Line) : List Import :=
  lines.zipIdx.flatMap fun (line, i) => line.imports (i + 1)

/-! ### Texts -/

theorem text_cons (line : Line) (lines : List Line) :
    text (line :: lines) = line.text ++ '\n' :: text lines :=
  linesText_cons line.text (lines.map Line.text)

theorem lead_from (module : DottedPath) (members : Members) (rest : List Char) :
    (Statement.from module members).lead ++ ' ' :: rest =
      "from".toList ++ ' ' :: (module.text ++ ' ' :: ("import".toList ++ ' ' :: rest)) := by
  show (("from".toList ++ [' ']) ++ module.text ++ ' ' :: "import".toList) ++ ' ' :: rest = _
  simp only [List.append_assoc, List.cons_append, List.nil_append]

theorem not_isBlank_of_isNamePart {c : Char} (h : isNamePart c = true) : isBlank c = false := by
  have hsolid : (!isBlank c) = true :=
    of_isNamePart (p := fun c => !isBlank c) (by decide +kernel) h
  simpa using hsolid

theorem Name.part (name : Name) : ∀ c ∈ name.text, isNamePart c = true :=
  isNamePart_of_isName name.ascii

theorem Name.ne_nil (name : Name) : name.text ≠ [] := ne_nil_of_isName name.ascii

theorem DottedPath.part (path : DottedPath) : ∀ c ∈ path.text, isNamePart c = true ∨ c = '.' := by
  intro c hc
  rw [DottedPath.text, dotted, List.mem_append, List.mem_flatMap] at hc
  rcases hc with hc | ⟨name, -, hc⟩
  · exact .inl (path.head.part c hc)
  · rcases List.mem_cons.mp hc with rfl | hc
    · exact .inr rfl
    · exact .inl (name.part c hc)

theorem DottedPath.not_blank (path : DottedPath) : ∀ c ∈ path.text, isBlank c = false := by
  intro c hc
  rcases path.part c hc with hc | rfl
  · exact not_isBlank_of_isNamePart hc
  · rfl

theorem ends_dotted (names : List Name) {rest : List Char} (hrest : Ends rest) :
    Ends (dotted names ++ rest) := by
  cases names with
  | nil => exact hrest
  | cons name names => exact show '.' ∈ [' ', ',', '.', '\n'] by decide

theorem ends_listed (items : List Item) {rest : List Char} (hrest : Ends rest) :
    Ends (listed items ++ rest) := by
  cases items with
  | nil => exact hrest
  | cons item items => exact show ',' ∈ [' ', ',', '.', '\n'] by decide

theorem ends_blank (text : List Char) : Ends (' ' :: text) :=
  show ' ' ∈ [' ', ',', '.', '\n'] by decide

theorem isLine_note (note : Note) : Layout.IsLine note.text := by
  intro c hc
  obtain ⟨hc, -⟩ := note.printable c hc
  constructor
  · rintro rfl
    exact absurd hc (by decide)
  · rintro rfl
    exact absurd hc (by decide)

theorem isNote_noteText (note? : Option Note) : IsNote (noteText note?) := by
  cases note? with
  | none => exact .inl rfl
  | some note => exact .inr ⟨note.text, isLine_note note, rfl⟩

theorem isSpare_text {line : Line} (h : ∀ s note?, line ≠ .statement s note?) : IsSpare line.text := by
  cases line with
  | empty => exact .inl rfl
  | comment note => exact .inr ⟨note.text, isLine_note note, rfl⟩
  | statement s note? => exact absurd rfl (h s note?)

end ScriptPack.Python.ImportFile

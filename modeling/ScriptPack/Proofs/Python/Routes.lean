import ScriptPack.Proofs.Python.Stacks

/-!
The routes of import statements through the automaton: tables of what is done with which terminal
behind which symbols, each checked for all places where such symbols come up.
-/

namespace ScriptPack.Python.Routes

open Excerpt
open Terminal (kwAs kwFrom kwFuture kwImport comma dot identifier newline endOfText)
open Nonterminal (statements statement simpleStatements importStatement importFrom futureImport
  importList moreImports aliasedImport dottedName moreNameParts)

instance : Coe Terminal Symbol := ⟨.terminal⟩

instance : Coe Nonterminal Symbol := ⟨.nonterminal⟩

/-- Symbols, the terminal behind them and what is then done. -/
abbrev Table := List (List Symbol × Terminal × Action)

/-! ### Places -/

/-- What a file has come to in front of a statement. -/
def roots : List (List Symbol) := [[], [statements]]

/-- The statements, each with what it has in front of its list. -/
def heads : List (Nonterminal × List Symbol) :=
  [(importStatement, [kwImport]), (importFrom, [kwFrom, dottedName, kwImport]),
    (futureImport, [kwFrom, kwFuture, kwImport])]

/-- What comes in front of a list. -/
def beforeLists : List (List Symbol) :=
  roots.flatMap fun root => heads.map fun (_, head) => root ++ head

/-- What an item of a list comes to. -/
def itemKinds : List Symbol := [dottedName, aliasedImport]

/-- What a list has in front of an item. -/
def listFronts : List (List Symbol) :=
  [] :: itemKinds.flatMap fun x => [[x, comma], [x, moreImports, comma]]

/-- What comes in front of an item. -/
def beforeItems : List (List Symbol) :=
  beforeLists.flatMap fun before => listFronts.map (before ++ ·)

/-- What comes in front of a dotted name, and a terminal that may come behind it. -/
def aroundNames : List (List Symbol × Terminal) :=
  roots.map (fun root => (root ++ [(kwFrom : Symbol)], kwImport)) ++
    beforeItems.flatMap fun before => [(before, kwAs), (before, comma), (before, newline)]

/-- What a dotted name is as long as it may go on. -/
def nameShapes : List (List Symbol) :=
  [[identifier], [identifier, dot, identifier], [identifier, moreNameParts, dot, identifier]]

/-! ### Tables -/

/-- A dotted name that ends in front of `t`. -/
def nameTable (t : Terminal) : Table :=
  [([], identifier, .shift),
    ([identifier], dot, .shift),
    ([identifier], t, .reduce dottedName [identifier]),
    ([identifier, dot], identifier, .shift),
    ([identifier, dot, identifier], dot, .reduce moreNameParts [dot, identifier]),
    ([identifier, dot, identifier], t, .reduce moreNameParts [dot, identifier]),
    ([identifier, moreNameParts], dot, .shift),
    ([identifier, moreNameParts], t, .reduce dottedName [identifier, moreNameParts]),
    ([identifier, moreNameParts, dot], identifier, .shift),
    ([identifier, moreNameParts, dot, identifier], dot,
      .reduce moreNameParts [moreNameParts, dot, identifier]),
    ([identifier, moreNameParts, dot, identifier], t,
      .reduce moreNameParts [moreNameParts, dot, identifier])]

theorem name_does {before behind : List Symbol} {t t' : Terminal} {action : Action}
    (hplace : (before, t) ∈ aroundNames) (h : (behind, t', action) ∈ nameTable t) :
    Does (before ++ behind) t' action := by
  have hall : ∀ place ∈ aroundNames, ∀ row ∈ nameTable place.2,
      Does (place.1 ++ row.1) row.2.1 row.2.2 := by
    decide +kernel
  exact hall _ hplace _ h

/-- An item with a new name, in a list that goes on or ends in front of `t`. -/
def aliasTable (t : Terminal) : Table :=
  [([dottedName], kwAs, .shift),
    ([dottedName, kwAs], identifier, .shift),
    ([dottedName, kwAs, identifier], t, .reduce aliasedImport [dottedName, kwAs, identifier])]

theorem alias_does {before behind : List Symbol} {t t' : Terminal} {action : Action}
    (hplace : before ∈ beforeItems) (ht : t ∈ [comma, newline])
    (h : (behind, t', action) ∈ aliasTable t) : Does (before ++ behind) t' action := by
  have hall : ∀ before ∈ beforeItems, ∀ t ∈ [comma, newline], ∀ row ∈ aliasTable t,
      Does (before ++ row.1) row.2.1 row.2.2 := by
    decide +kernel
  exact hall _ hplace _ ht _ h

/-- A list with a first item `x` and an item `y` in front of `t`. -/
def listTable (x y : Symbol) (t : Terminal) : Table :=
  [([x], comma, .shift),
    ([x], newline, .reduce importList [x]),
    ([x, comma, y], t, .reduce moreImports [comma, y]),
    ([x, moreImports], comma, .shift),
    ([x, moreImports], newline, .reduce importList [x, moreImports]),
    ([x, moreImports, comma, y], t, .reduce moreImports [moreImports, comma, y])]

theorem list_does {before behind : List Symbol} {x y : Symbol} {t t' : Terminal} {action : Action}
    (hplace : before ∈ beforeLists) (hx : x ∈ itemKinds) (hy : y ∈ itemKinds)
    (ht : t ∈ [comma, newline]) (h : (behind, t', action) ∈ listTable x y t) :
    Does (before ++ behind) t' action := by
  have hall : ∀ before ∈ beforeLists, ∀ x ∈ itemKinds, ∀ y ∈ itemKinds, ∀ t ∈ [comma, newline],
      ∀ row ∈ listTable x y t, Does (before ++ row.1) row.2.1 row.2.2 := by
    decide +kernel
  exact hall _ hplace _ hx _ hy _ ht _ h

/-- The beginnings of statements, behind their first keyword. -/
def leadTable : Table :=
  [([kwFrom, dottedName], kwImport, .shift),
    ([kwFrom], kwFuture, .shift),
    ([kwFrom, kwFuture], kwImport, .shift)]

theorem lead_does {root behind : List Symbol} {t : Terminal} {action : Action}
    (hroot : root ∈ roots) (h : (behind, t, action) ∈ leadTable) : Does (root ++ behind) t action := by
  have hall : ∀ root ∈ roots, ∀ row ∈ leadTable, Does (root ++ row.1) row.2.1 row.2.2 := by
    decide +kernel
  exact hall _ hroot _ h

/-- The end of a statement, behind its list. -/
def statementTable (x : Nonterminal) (head : List Symbol) : Table :=
  [(head ++ [(importList : Symbol)], newline, .reduce x (head ++ [(importList : Symbol)])),
    ([x], newline, .shift)]

theorem statement_does {root head behind : List Symbol} {x : Nonterminal} {t : Terminal}
    {action : Action} (hroot : root ∈ roots) (hhead : (x, head) ∈ heads)
    (h : (behind, t, action) ∈ statementTable x head) : Does (root ++ behind) t action := by
  have hall : ∀ root ∈ roots, ∀ head ∈ heads, ∀ row ∈ statementTable head.1 head.2,
      Does (root ++ row.1) row.2.1 row.2.2 := by
    decide +kernel
  exact hall _ hroot _ hhead _ h

/-- What comes up between lines: the next statement or the end of the text. -/
def fronts : List Terminal := [kwImport, kwFrom, endOfText]

/-- A statement `x` in front of `t`, behind a root. -/
def rootTable (x : Nonterminal) (root : List Symbol) (t : Terminal) : Table :=
  [(root ++ [(x : Symbol), (newline : Symbol)], t, .reduce simpleStatements [x, newline]),
    (root ++ [(simpleStatements : Symbol)], t, .reduce statement [simpleStatements]),
    (root ++ [(statement : Symbol)], t, .reduce statements (root ++ [(statement : Symbol)])),
    (root, t, .shift)]

theorem root_does {root path : List Symbol} {x : Nonterminal} {head : List Symbol} {t t' : Terminal}
    {action : Action} (hroot : root ∈ roots) (hhead : (x, head) ∈ heads) (ht : t ∈ fronts)
    (h : (path, t', action) ∈ rootTable x root t) : Does path t' action := by
  have hall : ∀ root ∈ roots, ∀ head ∈ heads, ∀ t ∈ fronts, ∀ row ∈ rootTable head.1 root t,
      Does row.1 row.2.1 row.2.2 := by
    decide +kernel
  exact hall _ hroot _ hhead _ ht _ h

/-- What a file has come to between lines. -/
def betweenLines : List (List Symbol) :=
  [] :: roots.flatMap fun root =>
    heads.map fun (x, _) => root ++ [(x : Symbol), (newline : Symbol)]

/-- Between lines nothing is expected that begins or ends a line. -/
theorem expects_betweenLines {path : List Symbol} (h : path ∈ betweenLines) :
    ∀ t ∈ [newline, .indent, .dedent, .kwExcept, .formatText], expects? path t = some false := by
  have hall : ∀ path ∈ betweenLines,
      ∀ t ∈ [newline, .indent, .dedent, .kwExcept, .formatText], expects? path t = some false := by
    decide +kernel
  exact hall path h

end ScriptPack.Python.Routes

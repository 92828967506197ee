import ScriptPack.Python.Import
import ScriptPack.Python.LinePatterns
import ScriptPack.Python.Recognizer

/-!
The imports of a source text. If the text has a syntax tree they are read off its import statements,
in the order of the text; otherwise the lines are scanned for import patterns. Imports of the
compiler's own directives and relative imports name no module.
-/

namespace ScriptPack.Python

open Text (isBlank)

/-- The text of a dotted name with all blanks taken out. -/
def dottedText (tree : Tree) : String :=
  String.ofList (tree.text.filter (!isBlank ·))

namespace Tree

mutual

/-- The dotted names in an import list, not counting new names behind `as`, in front of `after`. -/
def importedNames (after : List Tree) : Tree → List Tree
  | leaf _ => after
  | node .dottedName parts => node .dottedName parts :: after
  | node _ parts => importedNamesOfReversed after parts

def importedNamesOfReversed (after : List Tree) : List Tree → List Tree
  | [] => after
  | tree :: earlier => importedNamesOfReversed (importedNames after tree) earlier

end

/-- Phrases that statements can be part of. -/
def holdsStatements : Nonterminal → Bool
  | .document | .statements | .statement | .simpleStatements | .moreSimpleStatements
  | .ifStatement | .elifClauses | .elifClause | .elseClause | .matchStatement | .matchBlock
  | .caseClauses | .caseClause | .forStatement | .whileStatement | .tryStatement
  | .exceptClauses | .exceptClause | .exceptGroups | .exceptGroup | .finallyClause
  | .withStatement | .functionDefinition | .classDefinition | .decorated | .block => true
  | _ => false

/-- The imports of one `import` or `from` statement with the given parts. -/
def statementImports (head : Nonterminal) (tree : Tree) : List Import :=
  match head, tree.children with
  | .importStatement, _ :: items :: _ =>
    (importedNames [] items).map fun name => ⟨.plain, dottedText name, tree.row + 1⟩
  | .importFrom, _ :: node .dottedName parts :: _ =>
    [⟨.from, dottedText (node .dottedName parts), tree.row + 1⟩]
  | _, _ => []

mutual

/-- The imports of all statements in a tree, in front of `after`. -/
def importsBefore (after : List Import) : Tree → List Import
  | leaf _ => after
  | node head parts =>
    if holdsStatements head then importsOfReversed after parts
    else statementImports head (node head parts) ++ after

def importsOfReversed (after : List Import) : List Tree → List Import
  | [] => after
  | tree :: earlier => importsOfReversed (importsBefore after tree) earlier

end

end Tree

/-- The imports of a Python source text. -/
def importsOf (source : List Char) : ImportList :=
  match parse? source with
  | some trees => ⟨Tree.importsOfReversed [] trees.reverse, .syntaxTree⟩
  | none => ⟨LinePatterns.scanLines source, .linePatterns⟩

end ScriptPack.Python

/-!
What a Python source says it imports: one entry for each module named by an `import` statement, and
one for each `from` statement with an absolute module.
-/

namespace ScriptPack.Python

inductive ImportKind
  | plain | from
  deriving DecidableEq, Repr

structure Import where
  kind : ImportKind
  /-- The dotted module path. -/
  module : String
  /-- The line of the statement, counted from 1. -/
  line : Nat
  deriving DecidableEq, Repr

/-- How the imports of a source were found. -/
inductive Method
  | syntaxTree | linePatterns
  deriving DecidableEq, Repr

def Method.name : Method → String
  | syntaxTree => "syntax-tree"
  | linePatterns => "line-patterns"

structure ImportList where
  imports : List Import
  method : Method
  deriving DecidableEq, Repr

/-- The part of a module path in front of its first dot. -/
def topLevelName (module : String) : String :=
  String.ofList (module.toList.takeWhile (· != '.'))

end ScriptPack.Python

import ScriptPack.World

/-!
The size of a file, or of all files in a folder. Links count nothing and are not followed; neither
does what cannot be looked at.
-/

namespace ScriptPack

namespace Node

mutual

def size : Node → Nat
  | file content _ => content.length
  | folder entries => sizeOfEntries entries
  | link _ => 0

def sizeOfEntries : List (String × Node) → Nat
  | [] => 0
  | (_, node) :: rest => node.size + sizeOfEntries rest

end

end Node

namespace Files

open Effect

def size (path : String) : Effect Nat := do
  match ← attempt (lookup false path) with
  | .ok (.found _ node) => return node.size
  | _ => return 0

end Files

end ScriptPack

import ScriptPack.FileSystem.Copy

/-!
Delivering a build result. A folder is merged into the output folder entry by entry; a single file
is put into it beside what is there.
-/

namespace ScriptPack.Packaging

/-- Copies entries of one folder into another one. -/
def deliverEntries (artifact output : String) : List String → Effect Unit
  | [] => return
  | name :: rest => do
    Files.copy true (Path.join [artifact, name]) (Path.join [output, name])
    deliverEntries artifact output rest

def deliver (artifact output : String) : Effect Unit := do
  Files.makeFolders output
  match ← Files.require true artifact with
  | (_, .folder entries) => deliverEntries artifact output (entries.map (·.1))
  | _ => Files.copy false artifact (Path.join [output, Path.baseName artifact])

end ScriptPack.Packaging

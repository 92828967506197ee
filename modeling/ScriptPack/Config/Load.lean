import ScriptPack.Config.Module
import ScriptPack.Config.Resolve
import ScriptPack.FileSystem.Operations
import ScriptPack.Text.Utf8

/-!
Loading the optional settings file of a project. It is looked for once and what was found is kept;
and a file that was read once is not read again, not even when the search is repeated.
-/

namespace ScriptPack

/-- What is known of settings files. -/
structure KnownConfig where
  /-- The configuration that was found, null if there is none; nothing before the first search. -/
  config : Option Json
  /-- The configurations of the files that were read. -/
  files : List (Location × Json)

namespace KnownConfig

def empty : KnownConfig := ⟨none, []⟩

/-- Makes the next search look again. -/
def forget (known : KnownConfig) : KnownConfig := { known with config := none }

def fileName : String := "exepack.config.js"

/-- Reads a settings file, unless that was done before. -/
def readFile (known : KnownConfig) (path : String) : Effect (Json × KnownConfig) := do
  let (location, node) ← Files.require true path
  match known.files.lookup location with
  | some config => return (config, known)
  | none =>
    match node with
    | .folder _ => Effect.failSystem .folderAsModule
    | _ =>
      match Config.ofText? (Text.Utf8.decode (← Files.read path)) with
      | none => Effect.fail .badJson
      | some config => return (config, { known with files := (location, config) :: known.files })

/-- The configuration of a project folder, null if there is none. -/
def load (known : KnownConfig) (root : String) : Effect (Json × KnownConfig) := do
  match known.config with
  | some config => return (config, known)
  | none =>
    let path := Path.join [root, fileName]
    if !(← Files.exists? path) then return (.null, { known with config := some .null })
    else
      let (value, known) ← known.readFile path
      let config := if value.isObject then value else .null
      Effect.logFields .config "loaded config" [("path", .string path)]
      return (config, { known with config := some config })

end KnownConfig

end ScriptPack

import ScriptPack.Path

/-!
The arguments of packaging engines: where the script is among them, how the modules that it needs
are named, and where the engine is told to write.
-/

namespace ScriptPack.Packaging

/-- What an engine is asked to do. -/
structure BuildRequest where
  scriptPath : String
  args : List String
  /-- The folder for the result. -/
  distPath : String
  deriving DecidableEq, Repr

def hiddenImportArgs (modules : List String) : List String :=
  modules.flatMap fun module => ["--hidden-import", module]

/-- The script: the first argument that is no option and ends in `.py`. -/
def scriptPath? (args : List String) : Option String :=
  args.find? fun arg => !Text.startsWith arg "-" && Text.endsWith arg ".py"

/-- The arguments of an engine that keeps its own files in a working folder. -/
def engineArgs (request : BuildRequest) (workFolder : String) : List String :=
  request.args ++
    ["--distpath", request.distPath, "--workpath", Path.join [workFolder, "build"],
     "--specpath", workFolder]

end ScriptPack.Packaging

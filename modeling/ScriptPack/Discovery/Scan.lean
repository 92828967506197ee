import ScriptPack.Diagnostics.Warning
import ScriptPack.FileSystem.Operations
import ScriptPack.Python.ImportTree
import ScriptPack.Text.Utf16
import ScriptPack.Text.Utf8

/-!
Scanning a script and its neighbours for imports. The walk is breadth first: every Python file in
the folder of a file is one step away from it, and files too many steps away are not read.
-/

namespace ScriptPack

open Effect

/-- The imports of a Python file. -/
def Files.imports (path : String) : Effect Python.ImportList := do
  let found := Python.importsOf (Text.Utf8.decode (← Files.read path))
  if found.method == .linePatterns then
    log .parser "syntax errors, falling back to line patterns" []
  return found

namespace Discovery

/-- What a walk has found so far. -/
structure Scan where
  /-- The top-level names of the imports, in the order in which they were found. -/
  names : List String
  /-- The files that were read or are going to be read. -/
  visited : List String
  /-- The Python files of those folders that were listed. -/
  listings : List (String × List String)

namespace Scan

def start (entry : String) : Scan := ⟨[], [entry], []⟩

/-- Reads the imports of a file. A file that cannot be read is passed over. -/
def readFile (scan : Scan) (file : String) : Effect Scan := do
  match ← attempt (Files.imports file) with
  | .ok found =>
    let tops := found.imports.map fun item => Python.topLevelName item.module
    trace .debug "discovery.scan"
      (some (.object
        [("file", .string file), ("method", .string found.method.name),
          ("imports", .number (.ofNat found.imports.length))]))
    return { scan with names := scan.names ++ tops }
  | .error failure =>
    warnFailed .discoveryFileSkipped ("cannot scan " ++ file) failure
    return scan

/-- The paths of the Python files among the entries of a folder, in order. -/
def pythonFiles (folder : String) (entries : List (String × Node)) : List String :=
  let files := entries.filter fun (name, node) => node.isFile && Text.endsWith name ".py"
  Text.Utf16.sort (files.map fun (name, _) => Path.join [folder, name])

/-- The Python files in the folder of a file. -/
def siblings (scan : Scan) (file : String) : Effect (List String × Scan) := do
  let folder := Path.directory file
  match scan.listings.lookup folder with
  | some files => return (files, scan)
  | none =>
    let files ←
      match ← attempt (Files.list folder) with
      | .ok entries => pure (pythonFiles folder entries)
      | .error failure =>
        warnFailed .discoveryFileSkipped ("cannot list " ++ folder) failure
        pure []
    return (files, { scan with listings := (folder, files) :: scan.listings })

/-- Reads the waiting files, each given with its distance from the first one. At most `room` files
are read. -/
def walk (maxDepth : Number) : (room : Nat) → List (String × Nat) → Scan → Effect Scan
  | 0, _, scan => return scan
  | _, [], scan => return scan
  | room + 1, (file, depth) :: waiting, scan => do
    let scan ← scan.readFile file
    if Number.atMost maxDepth (.ofNat depth) then walk maxDepth room waiting scan
    else
      let (files, scan) ← scan.siblings file
      let new := files.filter (!scan.visited.contains ·)
      walk maxDepth room (waiting ++ new.map fun file => (file, depth + 1))
        { scan with visited := scan.visited ++ new }

/-- Scans a script and its neighbours. There are at most as many files to read as the folder of the
script has entries, and the script. -/
def run (maxDepth : Number) (entry : String) : Effect Scan := do
  let room ←
    match ← attempt (Files.list (Path.directory entry)) with
    | .ok entries => pure entries.length
    | .error _ => pure 0
  walk maxDepth (room + 1) [(entry, 0)] (start entry)

end Scan

end Discovery

end ScriptPack

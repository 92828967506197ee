import ScriptPack.CommandLine.Commands
import ScriptPack.Diagnostics.Console

/-!
The program. It takes the folders that it works in from the disk into a world, runs the command
there, brings the changes back, and prints the lines that were written. Those folders are the
current one, the one of the default cache, and one for temporary files. Other programs cannot be run
from here, so names are not checked with an interpreter and builds find no engine.
-/

namespace ScriptPack.Disk

def stampOf (time : IO.FS.SystemTime) : Stamp := ⟨time.sec, time.nsec.toNat⟩

/-- The node of what is on the disk at a path. -/
partial def read (path : String) : IO Node := do
  let file := (← IO.currentDir) / path
  let about ← file.symlinkMetadata
  match about.type with
  | .dir =>
    let mut entries := []
    for entry in ← file.readDir do
      entries := (entry.fileName, ← read (path ++ "/" ++ entry.fileName)) :: entries
    return .folder (entries.mergeSort fun a b => a.1 ≤ b.1)
  | .symlink => return .link (toString (← IO.FS.realPath file))
  | _ =>
    let content ← IO.FS.readBinFile file
    return .file content.toList (stampOf about.modified)

/-- Changes what is at a path from one node to another. -/
partial def change (path : String) (old new : Option Node) : IO Unit := do
  match old, new with
  | some (.folder before), some (.folder after) =>
    for name in (before.map (·.1) ++ after.map (·.1)).eraseDups do
      change (path ++ "/" ++ name) (before.lookup name) (after.lookup name)
  | some (.file before _), some (.file after _) =>
    if before != after then IO.FS.writeBinFile path ⟨after.toArray⟩
  | some (.link _), some (.link _) => pure ()
  | none, some (.folder entries) =>
    IO.FS.createDirAll path
    for (name, node) in entries do change (path ++ "/" ++ name) none (some node)
  | none, some (.file content _) => IO.FS.writeBinFile path ⟨content.toArray⟩
  | none, some (.link target) => throw (IO.userError ("cannot make a link to " ++ target))
  | none, none => pure ()
  | some (.folder _), _ =>
    IO.FS.removeDirAll path
    change path none new
  | some _, _ =>
    IO.FS.removeFile path
    change path none new

/-- Makes sure that there is a folder at a location and above it. -/
def withFolder (root : Node) (location : Location) : Node :=
  ((List.range location.length).map fun n => location.take (n + 1)).foldl
    (fun root front => if (root.at? front).isNone then Node.put front .empty root else root) root

/-- Puts a folder of the disk into a tree; one that is not there yet is put in empty. -/
def mount (root : Node) (path : String) : IO Node := do
  let names := Path.names path
  let root := withFolder root names
  if names.isEmpty then return root
  try return Node.put names (← read path) root
  catch _ => return root

/-- The time now, as the time of modification of a new file. -/
def timeNow : IO Number := do
  let (_, file) ← IO.FS.createTempFile
  let about ← file.metadata
  IO.FS.removeFile file
  return (stampOf about.modified).milliseconds

/-- A number that other processes are not likely to have. -/
def processNumber : IO String := do
  return toString ((← IO.getRandomBytes 3).toList.foldl (fun n b => 256 * n + b.toNat) 0)

end ScriptPack.Disk

namespace ScriptPack.CommandLine

def noPrograms : Programs where
  output name _ := Effect.fail (.reported ("spawnSync " ++ name ++ " ENOENT"))
  run name _ := Effect.fail (.reported ("spawn " ++ name ++ " ENOENT"))

end ScriptPack.CommandLine

open ScriptPack

def main (args : List String) : IO UInt32 := do
  let folder := toString (← IO.currentDir)
  let environment : Environment :=
    { home := (← IO.getEnv "HOME").getD "/"
      temporaryFolder := "/tmp/exepack"
      trace := ← IO.getEnv "EXEPACK_TRACE"
      traceLevel := ← IO.getEnv "EXEPACK_TRACE_LEVEL"
      debug := ← IO.getEnv "EXEPACK_DEBUG" }
  let places := [folder, Path.join [environment.home, ".exepack"], environment.temporaryFolder]
  let world : World :=
    { environment
      root := ← places.foldlM Disk.mount Node.empty
      workingDirectory := folder
      clock := ← Disk.timeNow
      stamp := ⟨0, 0⟩
      processId := ← Disk.processNumber
      debugSwitch := false
      lines := []
      stepsLeft := none }
  let (result, after) := CommandLine.run CommandLine.noPrograms args world
  Disk.change "" (some world.root) (some after.root)
  for line in after.lines.reverse do
    let (stream, text) := Console.render line
    let handle ← match stream with
      | .out => IO.getStdout
      | .err => IO.getStderr
    handle.putStr text
  return match result with
    | .ok code => UInt32.ofNat code
    | .error _ => 1

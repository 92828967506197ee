import ScriptPack.FileSystem.Operations
import ScriptPack.Text.Word

/-!
Looking for a module where an interpreter would: below each search path in turn, as a package
folder, a source file or a compiled extension. The listing of a folder is made once and then
remembered.
-/

namespace ScriptPack.Discovery

open Effect

/-- Whether a file name is that of a compiled extension with the given module name. -/
def isExtension (module file : String) : Bool :=
  Text.startsWith file (module ++ ".") && (Text.endsWith file ".so" || Text.endsWith file ".pyd")

structure SearchPaths where
  roots : List String
  /-- The names in those folders that were listed before. -/
  listings : List (String × List String)

namespace SearchPaths

def ofRoots (roots : List String) : SearchPaths := ⟨roots, []⟩

/-- The names in a folder; none if it cannot be listed. -/
def list (paths : SearchPaths) (folder : String) : Effect (List String × SearchPaths) := do
  match paths.listings.lookup folder with
  | some names => return (names, paths)
  | none =>
    let names ←
      match ← attempt (Files.list folder) with
      | .ok entries => pure (entries.map (·.1))
      | .error _ => pure []
    return (names, { paths with listings := (folder, names) :: paths.listings })

/-- Whether a module is found below one root, given by the packages around it and its own name. -/
def isUnder (paths : SearchPaths) (root : String) (packages : List String) (module : String) :
    Effect (Bool × SearchPaths) := do
  let folder := Path.join (root :: packages)
  if ← Files.isFolder (Path.join [folder, module]) then return (true, paths)
  if ← Files.isFile (Path.join [folder, module ++ ".py"]) then return (true, paths)
  let (names, paths) ← paths.list folder
  return (names.any (isExtension module), paths)

def isUnderAny (packages : List String) (module : String) :
    List String → SearchPaths → Effect (Bool × SearchPaths)
  | [], paths => return (false, paths)
  | root :: rest, paths => do
    let (found, paths) ← paths.isUnder root packages module
    if found then return (true, paths) else isUnderAny packages module rest paths

/-- Whether a dotted module name is found. -/
def canResolve (paths : SearchPaths) (module : String) : Effect (Bool × SearchPaths) := do
  let names := Text.parts '.' module.toList
  if names.all Text.isName then
    let names := names.map String.ofList
    isUnderAny names.dropLast (names.getLast?.getD "") paths.roots paths
  else return (false, paths)

end SearchPaths

end ScriptPack.Discovery

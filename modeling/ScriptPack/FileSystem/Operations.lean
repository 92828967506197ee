import ScriptPack.World

/-!
Operations on files and folders, each made of steps that happen or do not happen as a whole: a name
is set or removed, or a file is made empty. Writing a file takes one step for each byte, so a
process that is stopped leaves a part of it.
-/

namespace ScriptPack.Files

open Effect

/-- What a path leads to, when it leads to something. -/
def require (follow : Bool) (path : String) : Effect (Location × Node) := do
  match ← lookup follow path with
  | .found location node => return (location, node)
  | .free _ => failSystem .noEntry

def exists? (path : String) : Effect Bool := do
  match ← attempt (require true path) with
  | .ok _ => return true
  | .error _ => return false

def isFolder (path : String) : Effect Bool := do
  match ← attempt (require true path) with
  | .ok (_, node) => return node.isFolder
  | .error _ => return false

def isFile (path : String) : Effect Bool := do
  match ← attempt (require true path) with
  | .ok (_, node) => return node.isFile
  | .error _ => return false

/-- The names and nodes of a folder. -/
def list (path : String) : Effect (List (String × Node)) := do
  match ← require true path with
  | (_, .folder entries) => return entries
  | _ => failSystem .notDirectory

def read (path : String) : Effect Bytes := do
  match ← require true path with
  | (_, .file content _) => return content
  | (_, .folder _) => failSystem .isDirectory
  | (_, .link _) => failSystem .noEntry

def modified (path : String) : Effect Stamp := do
  match ← require true path with
  | (_, .file _ stamp) => return stamp
  | _ => failSystem .isDirectory

/-- Fills a file that was just emptied. -/
def fill (location : Location) (content : Bytes) : Effect Unit := do
  let world ← get
  match world.stepsLeft with
  | none => changeRoot (Node.put location (.file content world.stamp))
  | some n =>
    changeRoot (Node.put location (.file (content.take n) world.stamp))
    modify fun world => { world with stepsLeft := some (n - content.length) }
    if n < content.length then throw .interrupted

def writeAt (location : Location) (content : Bytes) : Effect Unit := do
  step
  changeRoot (Node.put location (.file [] (← get).stamp))
  fill location content

/-- Writes a file, following a link in its place. -/
def writeFile (path : String) (content : Bytes) : Effect Unit := do
  match ← lookup true path with
  | .found _ (.folder _) => failSystem .isDirectory
  | .found location _ => writeAt location content
  | .free location => writeAt location content

def putStep (location : Location) (node : Node) : Effect Unit := do
  step
  changeRoot (Node.put location node)

def removeStep (location : Location) : Effect Unit := do
  step
  changeRoot (Node.remove location)

/-- Makes the folders of a path, given as the names behind a location, one after the other. -/
def makeFoldersFrom (path : String) : List String → Effect Unit
  | [] => pure ()
  | name :: rest => do
    let path := path ++ "/" ++ name
    match ← lookup true path with
    | .found _ (.folder _) => makeFoldersFrom path rest
    | .found _ _ => failSystem (if rest.isEmpty then .alreadyExists else .notDirectory)
    | .free location =>
      match ← lookup false path with
      | .found _ _ => failSystem .noEntry
      | .free _ =>
        putStep location .empty
        makeFoldersFrom path rest

/-- Makes a folder with all folders above it; one that exists is fine. -/
def makeFolders (path : String) : Effect Unit := do
  let world ← get
  if path.isEmpty then failSystem .noEntry
  else if path.toList.contains '\x00' then failSystem .badPath
  else makeFoldersFrom "" (Path.names (absolute world path))

mutual

/-- Removes a node with all that is in it, the entries of a folder first. -/
def removeNode (location : Location) : Node → Effect Unit
  | .folder entries => do
    removeEntries location entries
    removeStep location
  | _ => removeStep location

def removeEntries (location : Location) : List (String × Node) → Effect Unit
  | [] => pure ()
  | (name, node) :: rest => do
    removeNode (location ++ [name]) node
    removeEntries location rest

end

/-- Removes what a path names, a link itself and not its target; nothing there is fine. -/
def removeAll (path : String) : Effect Unit := do
  match ← attempt (lookup false path) with
  | .ok (.free _) => pure ()
  | .ok (.found location node) =>
    if location.isEmpty then failSystem .invalid else removeNode location node
  | .error (.system .noEntry) => pure ()
  | .error failure => fail failure

/-- Gives a node another path, in place of what that path named before. -/
def rename (source target : String) : Effect Unit := do
  let (origin, node) ← require false source
  let place ← lookup false target
  let goal := match place with
    | .found goal _ => goal
    | .free goal => goal
  if goal == origin then pure ()
  else if origin.isPrefixOf goal then failSystem .invalid
  else
    match node, place with
    | .folder _, .found _ (.folder (_ :: _)) => failSystem .notEmpty
    | .folder _, .found _ (.folder []) => pure ()
    | .folder _, .found _ _ => failSystem .notDirectory
    | _, .found _ (.folder _) => failSystem .isDirectory
    | _, _ => pure ()
    step
    changeRoot fun root => Node.put goal node (root.remove origin)

/-- Makes a symbolic link. -/
def makeLink (target path : String) : Effect Unit := do
  if target.isEmpty then failSystem .noEntry
  else
    match ← lookup false path with
    | .found _ _ => failSystem .alreadyExists
    | .free location => putStep location (.link target)

end ScriptPack.Files

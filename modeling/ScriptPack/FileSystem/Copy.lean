import ScriptPack.FileSystem.Operations

/-!
Copying files and folders over what is there. A folder is merged into a folder of the same name, a
file takes the place of a file. Links are copied as links with absolute targets. The kinds have to
agree: a folder is not copied over anything else, nor anything else over a folder.
-/

namespace ScriptPack.Files

open Effect

/-- Whether one list of names leads into the place of another, or to it. -/
def isInside (outer inner : List String) : Bool := outer.isPrefixOf inner

mutual

/-- Copies a node to a path inside a folder that is being copied. -/
def mergeNode (source target : String) : Node → Effect Unit
  | .file content _ => do
    match ← lookup true target with
    | .found _ (.folder _) => failSystem .notSupported
    | _ => writeFile target content
  | .folder entries => do
    match ← lookup true target with
    | .found _ (.folder _) => mergeEntries source target entries
    | .found _ _ => failSystem .alreadyExists
    | .free location =>
      match ← lookup false target with
      | .found _ _ => failSystem .alreadyExists
      | .free _ =>
        putStep location .empty
        mergeEntries source target entries
  | .link aim => do
    let world ← get
    let base := Path.directory (absolute world source)
    let goal := Lookup.canonical world.root
      (if Path.isAbsolute aim then aim else base ++ "/" ++ aim)
    match ← lookup false target with
    | .free _ => makeLink goal target
    | .found location (.link known) =>
      match ← attempt (require true target) with
      | .error _ => failSystem .alreadyExists
      | .ok (_, node) =>
        let aimNames := Path.normalNames (Path.isAbsolute aim) (Path.names aim)
        let knownNames := Path.normalNames (Path.isAbsolute known) (Path.names known)
        let sameKind := Path.isAbsolute aim == Path.isAbsolute known
        if sameKind && isInside aimNames knownNames && (← isFolder aim) then
          failSystem .copyIntoItself
        else if sameKind && isInside knownNames aimNames && node.isFolder then
          failSystem .linkIntoFolder
        else
          removeStep location
          makeLink goal target
    | .found _ _ => failSystem .alreadyExists

def mergeEntries (source target : String) : List (String × Node) → Effect Unit
  | [] => pure ()
  | (name, node) :: rest => do
    mergeNode (source ++ "/" ++ name) (target ++ "/" ++ name) node
    mergeEntries source target rest

end

/-- Copies a link that was asked for by its own path. -/
def copyLink (source target aim : String) : Effect Unit := do
  let world ← get
  let aim :=
    if Path.isAbsolute aim then aim
    else Path.resolve (Path.directory (Path.resolve world.workingDirectory source)) aim
  match ← lookup false target with
  | .free _ => makeLink aim target
  | .found location (.link known) =>
    let known :=
      if Path.isAbsolute known then known
      else Path.resolve (Path.directory (Path.resolve world.workingDirectory target)) known
    let aimNames := Path.names (Path.resolve "/" aim)
    let knownNames := Path.names (Path.resolve "/" known)
    if isInside aimNames knownNames then failSystem .copyIntoItself
    else
      let (_, node) ← require true target
      if node.isFolder && isInside knownNames aimNames then failSystem .linkIntoFolder
      else
        removeStep location
        makeLink aim target
  | .found _ _ => failSystem .alreadyExists

def refuse (condition : Bool) (error : SystemError) : Effect Unit :=
  if condition then failSystem error else pure ()

/-- Whether a path leads to a location. -/
def leadsTo (origin : Location) (path : String) : Effect Bool := do
  match ← attempt (require true path) with
  | .ok (location, _) => return location == origin
  | .error _ => return false

/-- Refuses to copy a node over itself or over something of another kind. -/
def checkTarget (origin : Location) (node : Node) (target : String) : Effect Unit := do
  match ← attempt (lookup false target) with
  | .ok (.found _ there) => do
    refuse (← leadsTo origin target) .copyIntoItself
    refuse (node.isFolder && !there.isFolder) .folderOntoFile
    refuse (!node.isFolder && there.isFolder) .fileOntoFolder
  | .ok (.free _) => pure ()
  | .error (.system .noEntry) => pure ()
  | .error failure => fail failure

/-- Refuses a copy whose kinds do not agree or that would go into its own source. -/
def checkCopy (recursive : Bool) (source target : String) : Effect Unit := do
  let (origin, node) ← require true source
  checkTarget origin node target
  let inside := (source ++ (if Path.endsWithSeparator source then "" else "/")).toList
  refuse (node.isFolder && inside.isPrefixOf target.toList) .copyIntoItself
  refuse (← leadsTo origin (Path.directory target)) .copyIntoItself
  refuse (node.isFolder && !recursive) .unexpectedFolder

/-- Copies a node to a path of its own, over a file or link that is there. -/
def copyNode (source target : String) : Node → Effect Unit
  | .folder entries => do
    makeFolders target
    mergeEntries source target entries
  | .link aim => copyLink source target aim
  | .file content _ => do
    match ← lookup false target with
    | .found location _ =>
      removeStep location
      writeFile target content
    | .free _ => writeFile target content

/-- Copies what a path names to another path, making the folders above it. -/
def copy (recursive : Bool) (source target : String) : Effect Unit := do
  checkCopy recursive source target
  if !(← exists? (Path.directory target)) then
    let _ ← attempt (makeFolders (Path.directory target))
  let (_, node) ← require false source
  copyNode source target node

end ScriptPack.Files

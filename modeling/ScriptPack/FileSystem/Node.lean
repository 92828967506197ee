/-!
The contents of a file system: files with their bytes and time of modification, folders, and
symbolic links. The entries of a folder are kept in the order of their names, which is also the
order in which folders are listed.
-/

namespace ScriptPack

abbrev Bytes := List UInt8

/-- A time of modification: whole seconds, and nanoseconds beyond them. -/
structure Stamp where
  seconds : Int
  nanoseconds : Nat
  deriving DecidableEq, Repr

inductive Node
  | file (content : Bytes) (modified : Stamp)
  | folder (entries : List (String × Node))
  | link (target : String)

/-- A place in a file system, from the root down, with no link on the way. -/
abbrev Location := List String

namespace Node

def isFolder : Node → Bool
  | folder _ => true
  | _ => false

def isFile : Node → Bool
  | file _ _ => true
  | _ => false

def entries : Node → List (String × Node)
  | folder entries => entries
  | _ => []

def child? (node : Node) (name : String) : Option Node := node.entries.lookup name

/-- Sets or removes the entry of a name, keeping the order of names. -/
def alterEntry (name : String) (f : Option Node → Option Node) :
    List (String × Node) → List (String × Node)
  | [] =>
    match f none with
    | none => []
    | some node => [(name, node)]
  | (other, node) :: rest =>
    if name == other then
      match f (some node) with
      | none => rest
      | some node => (name, node) :: rest
    else if name < other then
      match f none with
      | none => (other, node) :: rest
      | some new => (name, new) :: (other, node) :: rest
    else (other, node) :: alterEntry name f rest

def at? (node : Node) : Location → Option Node
  | [] => some node
  | name :: rest =>
    match node.child? name with
    | none => none
    | some child => child.at? rest

/-- Sets or removes what is at a location. The folders above it have to exist. -/
def alter (f : Option Node → Option Node) : Location → Node → Node
  | [], node => (f (some node)).getD node
  | name :: rest, folder entries =>
    if rest.isEmpty then folder (alterEntry name f entries)
    else folder (alterEntry name (fun child => child.map (alter f rest)) entries)
  | _ :: _, node => node

def put (location : Location) (new : Node) (root : Node) : Node :=
  root.alter (fun _ => some new) location

def remove (location : Location) (root : Node) : Node := root.alter (fun _ => none) location

def empty : Node := folder []

end Node

end ScriptPack

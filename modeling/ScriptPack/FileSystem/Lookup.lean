import ScriptPack.Failure
import ScriptPack.FileSystem.Node
import ScriptPack.Path

/-!
Finding what a path leads to. Links on the way are followed, at most forty of them; whether a link
at the end is followed too is up to the caller. The last name of a path need not exist.
-/

namespace ScriptPack

/-- Where a path leads: to a node, or to a free name in a folder. -/
inductive Place
  | found (location : Location) (node : Node)
  | free (location : Location)

namespace Lookup

def linkLimit : Nat := 40

/-- The steps of a path. A separator at the end asks for a folder, as a step to `.` does. -/
def steps (path : String) : List String :=
  Path.names path ++ (if Path.endsWithSeparator path then ["."] else [])

/-- Goes on from a folder, given by its location in reverse order, along the remaining steps. From a
link that is followed, `jump` goes on with the steps of its target. -/
def walkWith (jump : List String → List String → Except SystemError Place) (root : Node)
    (follow : Bool) (here : List String) : List String → Except SystemError Place
  | [] =>
    match root.at? here.reverse with
    | some node => .ok (.found here.reverse node)
    | none => .error .noEntry
  | name :: rest =>
    if name == "." then walkWith jump root follow here rest
    else if name == ".." then walkWith jump root follow here.tail rest
    else
      let location := (name :: here).reverse
      match root.at? location with
      | none =>
        if rest.isEmpty then
          match root.at? here.reverse with
          | some (.folder _) => .ok (.free location)
          | some _ => .error .notDirectory
          | none => .error .noEntry
        else .error .noEntry
      | some (.folder _) => walkWith jump root follow (name :: here) rest
      | some (.file content modified) =>
        if rest.isEmpty then .ok (.found location (.file content modified))
        else .error .notDirectory
      | some (.link target) =>
        if rest.isEmpty && !follow then .ok (.found location (.link target))
        else jump (if Path.isAbsolute target then [] else here) (steps target ++ rest)

/-- Goes along steps from a folder, following at most the given number of links. -/
def walk (root : Node) (follow : Bool) :
    Nat → List String → List String → Except SystemError Place
  | 0 => walkWith (fun _ _ => .error .tooManyLinks) root follow
  | links + 1 => walkWith (walk root follow links) root follow

/-- What an absolute path leads to. -/
def place? (root : Node) (follow : Bool) (path : String) : Except SystemError Place :=
  if path.isEmpty then .error .noEntry
  else if path.toList.contains '\x00' then .error .badPath
  else walk root follow linkLimit [] (steps path)

/-- As far as the steps lead, with links followed by way of `jump`; the steps that lead nowhere are
normalised as text. -/
def canonicalWith (jump : Option (List String → List String → List String)) (root : Node)
    (here : List String) : List String → List String
  | [] => here.reverse
  | name :: rest =>
    if name == "." then canonicalWith jump root here rest
    else if name == ".." then canonicalWith jump root here.tail rest
    else
      match root.at? (name :: here).reverse with
      | none => Path.normalNames true (here.reverse ++ name :: rest)
      | some (.link target) =>
        match jump with
        | none => Path.normalNames true (here.reverse ++ name :: rest)
        | some jump => jump (if Path.isAbsolute target then [] else here) (steps target ++ rest)
      | some _ => canonicalWith jump root (name :: here) rest

/-- Where steps lead from a folder when at most the given number of links is followed. -/
def canonicalFrom (root : Node) : Nat → List String → List String → List String
  | 0 => canonicalWith none root
  | links + 1 => canonicalWith (some (canonicalFrom root links)) root

/-- The absolute path without links that a path stands for, as far as it exists. -/
def canonical (root : Node) (path : String) : String :=
  "/" ++ Path.glue (canonicalFrom root linkLimit [] (Path.names path))

end Lookup

end ScriptPack

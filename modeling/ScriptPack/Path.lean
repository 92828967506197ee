import ScriptPack.Text.Split

/-!
Path text. Paths are joined, normalised and taken apart as text, without looking at any file: a
name followed by `..` is dropped, single dots and repeated separators vanish.
-/

namespace ScriptPack.Path

/-- The non-empty names of a path. -/
def names (path : String) : List String :=
  ((Text.parts '/' path.toList).filter (!·.isEmpty)).map String.ofList

def isAbsolute (path : String) : Bool := path.toList.head? == some '/'

def endsWithSeparator (path : String) : Bool := path.toList.getLast? == some '/'

/-- One step of normalisation; the names so far are in reverse order. Without a root, `..` is kept
where there is no name to drop. -/
def normalStep (rooted : Bool) (done : List String) (name : String) : List String :=
  if name == "." then done
  else if name == ".." then
    match done with
    | [] => if rooted then [] else [".."]
    | last :: earlier => if last == ".." then ".." :: last :: earlier else earlier
  else name :: done

def normalNames (rooted : Bool) (all : List String) : List String :=
  (all.foldl (normalStep rooted) []).reverse

def glue (all : List String) : String := "/".intercalate all

def normalize (path : String) : String :=
  if path.isEmpty then "."
  else
    let rooted := isAbsolute path
    let kept := normalNames rooted (names path)
    let tail := if endsWithSeparator path then "/" else ""
    if kept.isEmpty then if rooted then "/" else "." ++ tail
    else (if rooted then "/" else "") ++ glue kept ++ tail

def join (pieces : List String) : String :=
  let present := pieces.filter (!·.isEmpty)
  if present.isEmpty then "." else normalize (glue present)

/-- The absolute path that `path` stands for when `directory`, which is absolute, is current. -/
def resolve (directory path : String) : String :=
  let all := if isAbsolute path then names path else names directory ++ names path
  "/" ++ glue (normalNames true all)

/-- The part of an absolute path in front of its last name. -/
def directory (path : String) : String :=
  match (names path).dropLast with
  | [] => if isAbsolute path then "/" else "."
  | kept => (if isAbsolute path then "/" else "") ++ glue kept

def baseName (path : String) : String := (names path).getLast?.getD ""

/-- The last dot of a name and what follows it, unless the name begins with that dot. -/
def extension (path : String) : String :=
  let name := (baseName path).toList
  let tail := name.reverse.takeWhile (· != '.')
  if name == ['.', '.'] || name.length ≤ tail.length + 1 then ""
  else String.ofList ('.' :: tail.reverse)

end ScriptPack.Path

import ScriptPack.Path

/-!
Names in the cache folder. Beside the artifacts it holds one document with their records, and while
something is written a copy of the document or of an artifact. A cache id is safe if it names an
entry of the folder and can lead nowhere else.
-/

namespace ScriptPack.Cache

def documentName : String := "cache_metadata.json"

def isIdChar (c : Char) : Bool := c.isAlphanum || c == '_' || c == '.' || c == '-'

def isSafeId (id : String) : Bool :=
  !id.isEmpty && id.toList.all isIdChar && id != "." && id != ".."

def artifactPath (root id : String) : String := Path.join [root, id]

def documentPath (root : String) : String := Path.join [root, documentName]

/-- Where a process writes the document before it takes the place of the old one. -/
def draftPath (root processId : String) : String :=
  documentPath root ++ "." ++ processId ++ ".tmp"

/-- Where an artifact is copied to before it gets its name. -/
def partialPath (artifact : String) : String := artifact ++ ".partial"

/-- Whether a name in the cache folder belongs to the document or to a draft of it. -/
def isDocumentName (name : String) : Bool :=
  name == documentName || Text.startsWith name (documentName ++ ".")

end ScriptPack.Cache

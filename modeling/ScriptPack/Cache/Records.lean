import ScriptPack.Number.Binary64
import ScriptPack.Time.Timestamp

/-!
Records of stored artifacts, one for each signature. They are kept in the order in which their
signatures first came in; a record that replaces another one takes its place.
-/

namespace ScriptPack

/-- What is known of a stored artifact. -/
structure Entry where
  signature : String
  /-- The name of the artifact in the cache folder. -/
  cacheId : String
  storedAt : Timestamp
  sourcePath : String
  invocation : String
  sizeBytes : Number
  deriving DecidableEq

abbrev Records := List Entry

namespace Records

def get? (records : Records) (signature : String) : Option Entry :=
  records.find? (·.signature == signature)

def contains (records : Records) (signature : String) : Bool :=
  records.any (·.signature == signature)

def set (records : Records) (entry : Entry) : Records :=
  if records.contains entry.signature then
    records.map fun known => if known.signature == entry.signature then entry else known
  else records ++ [entry]

def erase (records : Records) (signatures : List String) : Records :=
  records.filter fun entry => !signatures.contains entry.signature

/-- The sum of all sizes, added up in order. -/
def totalBytes (records : Records) : Number :=
  records.foldl (fun total entry => total + entry.sizeBytes) 0

/-- Whether an entry was stored no later than another one. -/
def notLater (a b : Entry) : Bool :=
  match a.storedAt, b.storedAt with
  | .at s, .at t => s ≤ t
  | _, _ => true

/-- The records from the oldest to the newest; of equally old ones, the first comes first. -/
def oldestFirst (records : Records) : List Entry := records.mergeSort notLater

end Records

end ScriptPack

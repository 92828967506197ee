import ScriptPack.Cache.Naming
import ScriptPack.Cache.Records
import ScriptPack.Failure
import ScriptPack.Json.Read
import ScriptPack.Json.Write
import ScriptPack.Time.DateText

/-!
The document that lists the records of a cache: one JSON object with a field for each signature.
Sizes are written in mebibytes, times in universal time. Records that cannot be used are left out
when a document is read; a text that is not JSON is refused.
-/

namespace ScriptPack

def bytesPerMB : Number := 1048576

namespace Document

def textField (record : Json) (name : String) : String :=
  match record.get? name with
  | some (.string s) => s
  | _ => ""

/-- The number of bytes for a size that was written, zero for one that makes no sense. -/
def bytesOf (size : Option Json) : Number :=
  match size with
  | some (.number n) =>
    if n.isFinite && Number.less 0 n then (n * bytesPerMB).roundHalfUp else 0
  | _ => 0

/-- The record of a signature, if it has a safe id and a time. -/
def entry? (signature : String) (record : Json) : Option Entry :=
  match record.get? "cacheId", record.get? "storedAt" with
  | some (.string cacheId), some (.string time) =>
    if !Cache.isSafeId cacheId then none
    else
      match Time.DateText.read time with
      | .invalid => none
      | storedAt =>
        some
          { signature, cacheId, storedAt
            sourcePath := textField record "sourcePath"
            invocation := textField record "invocation"
            sizeBytes := bytesOf (record.get? "sizeMB") }
  | _, _ => none

/-- The records of a document. -/
def parse (text : String) : Except Failure Records :=
  match Json.parse? text with
  | none => .error .badJson
  | some (.object fields) =>
    .ok (fields.filterMap fun (signature, record) => entry? signature record)
  | some _ => .ok []

def record (entry : Entry) (storedAt : String) : Json :=
  .object
    [("cacheId", .string entry.cacheId), ("storedAt", .string storedAt),
      ("sourcePath", .string entry.sourcePath), ("invocation", .string entry.invocation),
      ("sizeMB", .number (entry.sizeBytes / bytesPerMB))]

/-- Adds the field of an entry. No object has a field named `__proto__`. -/
def addRecord (fields : Fields Json) (entry : Entry) : Except Failure (Fields Json) :=
  match entry.storedAt.iso? with
  | none => .error .badDate
  | some storedAt =>
    .ok (if entry.signature == "__proto__" then fields
      else fields.set entry.signature (record entry storedAt))

/-- The text of the document for some records. -/
def serialize (records : Records) : Except Failure String := do
  let fields ← records.foldlM addRecord []
  return (Json.object fields).indented ++ "\n"

end Document

end ScriptPack

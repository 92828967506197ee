import ScriptPack.Cache.Document
import ScriptPack.Diagnostics.Warning
import ScriptPack.FileSystem.Operations
import ScriptPack.Text.Utf8

/-!
The records of a cache folder, in memory and in the folder's document. The document is read when the
store is opened, and written as a whole after every change: first under another name, and then moved
into its place. A change that cannot be written does not happen in memory either.
-/

namespace ScriptPack

structure Store where
  root : String
  records : Records

namespace Store

open Effect

def path (store : Store) : String := Cache.documentPath store.root

/-- The records in the document of a folder. -/
def readRecords (root : String) : Effect Records := do
  let bytes ← Files.read (Cache.documentPath root)
  match Document.parse (String.ofList (Text.Utf8.decode bytes)) with
  | .ok records => return records
  | .error failure => fail failure

/-- Opens the store of a folder. A document that cannot be read counts as empty. -/
def load (root : String) : Effect Store := do
  if !(← Files.exists? (Cache.documentPath root)) then return ⟨root, []⟩
  match ← attempt (readRecords root) with
  | .ok records => return ⟨root, records⟩
  | .error failure =>
    warn ⟨.cacheMetadataUnreadable, Cache.documentPath root ++ ": " ++ failure.message,
      "starting with an empty cache"⟩
    return ⟨root, []⟩

/-- Writes records to the document and then takes them over. -/
def commit (store : Store) (next : Records) : Effect Store := do
  Files.makeFolders store.root
  let draft := Cache.draftPath store.root (← get).processId
  match Document.serialize next with
  | .error failure => fail failure
  | .ok text =>
    Files.writeFile draft (Text.Utf8.encode text)
    Files.rename draft store.path
    return { store with records := next }

def set (store : Store) (entry : Entry) : Effect Store := store.commit (store.records.set entry)

/-- Drops the records of some signatures. Nothing is written if there are none. -/
def deleteMany (store : Store) (signatures : List String) : Effect Store :=
  if signatures.any store.records.contains then store.commit (store.records.erase signatures)
  else return store

def delete (store : Store) (signature : String) : Effect Store := store.deleteMany [signature]

def clear (store : Store) : Effect Store := store.commit []

end Store

end ScriptPack

import ScriptPack.Cache.Eviction
import ScriptPack.FileSystem.Copy
import ScriptPack.FileSystem.Size

/-!
Keeping a build result. It is copied into the cache folder under a name that is free there, first as
a partial copy that is then renamed, and gets a record. If the script has changed since the build
began, or anything fails, nothing is kept.
-/

namespace ScriptPack.Cache

open Effect

/-- The cache id that a signature and a time lead to. -/
def baseId (signature : String) (now : Number) : String :=
  "build_" ++ String.ofList (signature.toList.take 16) ++ "_" ++ (now / 1000).floor.text

/-- The id with a number behind it, from 1 on. -/
def numberedId (base : String) (n : Nat) : String :=
  if n = 0 then base else base ++ "_" ++ toString n

/-- The first id from a number on that is free in the cache folder. -/
def freeId (cache : Cache) (base : String) (n : Nat) : Nat → Effect String
  | 0 => return numberedId base n
  | tries + 1 => do
    let id := numberedId base n
    if ← Files.exists? (artifactPath cache.directory id) then cache.freeId base (n + 1) tries
    else return id

/-- An id that is free in the cache folder; there are only so many entries to avoid. -/
def mintId (cache : Cache) (signature : String) : Effect String := do
  let taken ←
    match ← attempt (Files.list cache.directory) with
    | .ok entries => pure entries.length
    | .error _ => pure 0
  cache.freeId (baseId signature (← get).clock) 0 taken

/-- Copies a build result into the cache folder and returns its size. -/
def copyIn (cache : Cache) (output artifact : String) : Effect Nat := do
  Files.makeFolders cache.directory
  Files.removeAll (partialPath artifact)
  Files.copy true output (partialPath artifact)
  Files.rename (partialPath artifact) artifact
  Files.size artifact

/-- Removes the artifact of the record that a new one replaces. -/
def removeOutdated (cache : Cache) (entry : Entry) : Effect Unit := do
  match cache.store.records.get? entry.signature with
  | none => pure ()
  | some previous =>
    if previous.cacheId != entry.cacheId then
      let _ ← cache.removeArtifact previous

/-- Gives a result that was copied in its record, in place of an earlier one. -/
def record (cache : Cache) (entry : Entry) : Effect (Bool × Cache) := do
  match ← attempt (cache.store.set entry) with
  | .error failure =>
    let _ ← cache.removeArtifact entry
    warnFailed .cacheWriteFailed "cannot persist cache metadata" failure
    return (false, cache)
  | .ok store =>
    cache.removeOutdated entry
    let size := Json.number entry.sizeBytes
    logFields .cache "build cached"
      [("cacheId", .string entry.cacheId), ("sizeBytes", size)]
    traceInfo "cache.store"
      [("signature", .string entry.signature), ("cacheId", .string entry.cacheId),
        ("sizeBytes", size)]
    let (_, cache) ← { cache with store := store }.evict
    return (true, cache)

/-- Copies a result in under an id and records it. -/
def keepAs (cache : Cache) (cacheId signature script invocation output : String) :
    Effect (Bool × Cache) := do
  let artifact := artifactPath cache.directory cacheId
  match ← attempt (cache.copyIn output artifact) with
  | .error failure =>
    let _ ← removePath (partialPath artifact)
    let _ ← removePath artifact
    warnFailed .cacheWriteFailed ("cannot copy " ++ output ++ " into the cache") failure
    return (false, cache)
  | .ok size =>
    cache.record
      { signature, cacheId, invocation
        storedAt := .ofNumber (← get).clock
        sourcePath := ← resolvePath script
        sizeBytes := .ofNat size }

/-- Keeps a result under a new id. -/
def mintAndKeep (cache : Cache) (signature script invocation output : String) :
    Effect (Bool × Cache) := do
  cache.keepAs (← cache.mintId signature) signature script invocation output

/-- Keeps what a build has produced at a path. With an expected signature nothing is kept unless the
script still has it. -/
def keep (cache : Cache) (script invocation output : String) (expected : Option String) :
    Effect (Bool × Cache) := do
  if !cache.settings.enabled then return (false, cache)
  if !(← Files.exists? output) then
    logFields .cache "nothing to cache" [("outputPath", .string output)]
    return (false, cache)
  match ← signature? script invocation with
  | none => return (false, cache)
  | some signature =>
    if expected.any (· != signature) then
      logFields .cache "script changed during the build, not caching"
        [("scriptPath", .string script)]
      return (false, cache)
    else cache.mintAndKeep signature script invocation output

end ScriptPack.Cache

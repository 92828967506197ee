import ScriptPack.Cache.Signature
import ScriptPack.Cache.Store
import ScriptPack.Settings

/-!
A cache of build results. What goes wrong while it is used is reported as a warning and never stops
the caller: a result that cannot be found or kept is built again.
-/

namespace ScriptPack

structure Cache where
  settings : CacheSettings
  store : Store

/-- Settings that are to be changed; the other ones stay. -/
structure CacheChange where
  enabled : Option Bool
  maxSizeMB : Option Number
  retentionDays : Option Number

def CacheChange.apply (change : CacheChange) (settings : CacheSettings) : CacheSettings where
  enabled := change.enabled.getD settings.enabled
  directory := settings.directory
  maxSizeMB := change.maxSizeMB.getD settings.maxSizeMB
  retentionDays := change.retentionDays.getD settings.retentionDays

structure CacheStats where
  entryCount : Nat
  totalSizeMB : Number
  maxSizeMB : Number
  retentionDays : Number
  cacheDirectory : String

namespace Cache

open Effect

/-- Opens the cache in the folder that the settings name. -/
def load (settings : CacheSettings) : Effect Cache := do
  let directory ← resolvePath settings.directory
  return { settings := { settings with directory }, store := ← Store.load directory }

def directory (cache : Cache) : String := cache.settings.directory

def update (cache : Cache) (change : CacheChange) : Cache :=
  { cache with settings := change.apply cache.settings }

/-- Where the artifact of an entry is. -/
def artifact (cache : Cache) (entry : Entry) : String :=
  artifactPath cache.directory entry.cacheId

/-- The signature of a script as it is now, if it can be read. -/
def signature? (script invocation : String) : Effect (Option String) := do
  match ← attempt (Files.signature script invocation) with
  | .ok signature => return some signature
  | .error failure =>
    warnFailed .scriptUnreadable ("cannot hash " ++ script) failure
    return none

/-- Removes what is at a path. What is not there counts as removed. -/
def removePath (path : String) : Effect Bool := do
  match ← attempt (Files.removeAll path) with
  | .ok _ => return true
  | .error failure =>
    warnFailed .cacheEvictFailed ("cannot remove " ++ path) failure
    return false

def removeArtifact (cache : Cache) (entry : Entry) : Effect Bool :=
  removePath (cache.artifact entry)

/-- Removes all artifacts and all records. -/
def clear (cache : Cache) : Effect (Bool × Cache) := do
  let result ← attempt do
    Files.removeAll cache.directory
    cache.store.clear
  match result with
  | .ok store =>
    logFields .cache "build cache cleared" [("directory", .string cache.directory)]
    return (true, { cache with store })
  | .error failure =>
    warnFailed .cacheWriteFailed "cannot clear cache" failure
    return (false, cache)

/-- How full the cache is; the size is rounded to hundredths. -/
def stats (cache : Cache) : CacheStats where
  entryCount := cache.store.records.length
  totalSizeMB := ((cache.store.records.totalBytes / bytesPerMB) * 100).roundHalfUp / 100
  maxSizeMB := cache.settings.maxSizeMB
  retentionDays := cache.settings.retentionDays
  cacheDirectory := cache.directory

end Cache

end ScriptPack

import ScriptPack.Cache.Basic

/-!
Keeping the cache small. First everything in its folder is removed that no record names; then, if
the records add up to more than the limit, the oldest artifacts go until the rest is well below it.
-/

namespace ScriptPack.Cache

open Effect

/-- The share of the limit at which eviction ends. -/
def evictionTarget : Number := .ofRat (8 / 10)

/-- Removes those entries of the cache folder that no record names, and counts them. -/
def sweepNames (cache : Cache) : List String → Effect Nat
  | [] => return 0
  | name :: rest => do
    let isLive := cache.store.records.any (·.cacheId == name)
    let gone ←
      if isDocumentName name || isLive then pure false
      else removePath (Path.join [cache.directory, name])
    let others ← cache.sweepNames rest
    return (if gone then 1 else 0) + others

def sweepOrphans (cache : Cache) : Effect Nat := do
  match ← attempt (Files.list cache.directory) with
  | .error failure =>
    logFields .cache "cannot list cache directory" [("error", .string failure.message)]
    return 0
  | .ok entries =>
    let removed ← cache.sweepNames (entries.map (·.1))
    if removed != 0 then
      let count := Json.number (.ofNat removed)
      logFields .cache "removed orphaned cache files" [("removed", count)]
      traceInfo "cache.sweep" [("removed", count)]
    return removed

/-- Removes artifacts from the front of a list until the total is down to the target. Returns the
signatures of those that are gone and the total that is left. -/
def removeOldest (cache : Cache) (target : Number) :
    List Entry → Number → Effect (List String × Number)
  | [], total => return ([], total)
  | entry :: rest, total => do
    if Number.atMost total target then return ([], total)
    if ← cache.removeArtifact entry then
      let (removed, left) ← cache.removeOldest target rest (total - entry.sizeBytes)
      return (entry.signature :: removed, left)
    else cache.removeOldest target rest total

/-- Brings the cache down to its size. Returns how many entries were removed. -/
def evict (cache : Cache) : Effect (Nat × Cache) := do
  let _ ← cache.sweepOrphans
  let maxBytes := cache.settings.maxSizeMB * bytesPerMB
  let total := cache.store.records.totalBytes
  if Number.atMost total maxBytes then return (0, cache)
  let (removed, left) ←
    cache.removeOldest (maxBytes * evictionTarget) cache.store.records.oldestFirst total
  let cache ←
    match ← attempt (cache.store.deleteMany removed) with
    | .ok store => pure { cache with store }
    | .error failure =>
      warnFailed .cacheEvictFailed "cannot persist eviction" failure
      pure cache
  let summary :=
    [("removed", Json.number (.ofNat removed.length)), ("totalBytes", .number left)]
  logFields .cache "cache eviction" summary
  traceInfo "cache.evict" summary
  return (removed.length, cache)

end ScriptPack.Cache

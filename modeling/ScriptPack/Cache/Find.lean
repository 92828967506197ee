import ScriptPack.Cache.Basic

/-!
Finding a stored artifact by its signature. Artifacts beyond their time are not given out any more,
but stay until something else removes them; the record of an artifact that is gone is dropped.
-/

namespace ScriptPack.Cache

open Effect

def dayMilliseconds : Number := 86400000

/-- Whether an entry has reached the end of its time. -/
def isExpired (cache : Cache) (now : Number) (entry : Entry) : Bool :=
  Number.atMost (cache.settings.retentionDays * dayMilliseconds)
    (now - entry.storedAt.milliseconds)

def reportMiss (signature reason : String) : Effect Unit :=
  traceInfo "cache.miss" [("signature", .string signature), ("reason", .string reason)]

/-- Drops the record of an artifact that is gone. -/
def dropRecord (cache : Cache) (signature : String) : Effect Cache := do
  match ← attempt (cache.store.delete signature) with
  | .ok store => return { cache with store }
  | .error failure =>
    warnFailed .cacheWriteFailed "dropping stale entry" failure
    return cache

/-- The path of the artifact that is filed under a signature. -/
def lookupSignature (cache : Cache) (signature : String) : Effect (Option String × Cache) := do
  if !cache.settings.enabled then return (none, cache)
  match cache.store.records.get? signature with
  | none =>
    logFields .cache "cache miss" [("signature", .string signature)]
    reportMiss signature "absent"
    return (none, cache)
  | some entry =>
    if cache.isExpired (← get).clock entry then
      logFields .cache "cache expired"
        [("signature", .string signature), ("storedAt", .string (entry.storedAt.iso?.getD ""))]
      reportMiss signature "expired"
      return (none, cache)
    else
      let artifact := cache.artifact entry
      if !(← Files.exists? artifact) then
        reportMiss signature "artifact-missing"
        return (none, ← cache.dropRecord signature)
      else
        logFields .cache "cache hit"
          [("signature", .string signature), ("artifact", .string artifact)]
        traceInfo "cache.hit"
          [("signature", .string signature), ("cacheId", .string entry.cacheId)]
        return (some artifact, cache)

/-- The path of the artifact for a script and the arguments of its build. -/
def lookup (cache : Cache) (script invocation : String) : Effect (Option String × Cache) := do
  if !cache.settings.enabled then return (none, cache)
  match ← signature? script invocation with
  | none => return (none, cache)
  | some signature => cache.lookupSignature signature

end ScriptPack.Cache

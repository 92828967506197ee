import ScriptPack.Diagnostics.Log
import ScriptPack.Diagnostics.Trace

/-!
Warnings: problems that do not keep the program from going on. A warning is shown in the debug log
and written as an event.
-/

namespace ScriptPack

inductive WarningCode
  | cacheWriteFailed | cacheEvictFailed | cacheMetadataUnreadable | scriptUnreadable
  | discoveryFileSkipped | discoveryFailed | invalidConfig
  deriving DecidableEq, Repr

namespace WarningCode

def name : WarningCode → String
  | cacheWriteFailed => "CACHE_WRITE_FAILED"
  | cacheEvictFailed => "CACHE_EVICT_FAILED"
  | cacheMetadataUnreadable => "CACHE_METADATA_UNREADABLE"
  | scriptUnreadable => "SCRIPT_UNREADABLE"
  | discoveryFileSkipped => "DISCOVERY_FILE_SKIPPED"
  | discoveryFailed => "DISCOVERY_FAILED"
  | invalidConfig => "INVALID_CONFIG"

def ofName? (name : String) : Option WarningCode :=
  [cacheWriteFailed, cacheEvictFailed, cacheMetadataUnreadable, scriptUnreadable,
    discoveryFileSkipped, discoveryFailed, invalidConfig].find? (·.name == name)

def scope : WarningCode → Scope
  | cacheWriteFailed | cacheEvictFailed | cacheMetadataUnreadable | scriptUnreadable => .cache
  | discoveryFileSkipped | discoveryFailed => .discovery
  | invalidConfig => .config

end WarningCode

structure Warning where
  code : WarningCode
  message : String
  /-- What can be done about it, if something can. -/
  hint : String
  deriving DecidableEq, Repr

def Warning.text (warning : Warning) : String :=
  "warning(" ++ warning.code.name ++ "): " ++ warning.message
    ++ (if warning.hint.isEmpty then "" else " Hint: " ++ warning.hint)

namespace Effect

def warn (warning : Warning) : Effect Unit := do
  logTo .err warning.code.scope [.string warning.text]
  trace .warn "warning"
    (some (.object
      [("code", .string warning.code.name), ("message", .string warning.message)]))

/-- A warning about a failure of something that was tried. -/
def warnFailed (code : WarningCode) (what : String) (failure : Failure) : Effect Unit :=
  warn ⟨code, what ++ ": " ++ failure.message, ""⟩

end Effect

end ScriptPack

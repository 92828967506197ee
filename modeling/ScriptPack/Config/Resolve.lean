import ScriptPack.Diagnostics.Warning
import ScriptPack.Settings

/-!
Settings from a configuration. Each field that is present and usable takes the place of the default;
one that is present and not usable is ignored, and reported with its value.
-/

namespace ScriptPack

/-- A part of a configuration that is present and cannot be used. -/
structure Ignored where
  field : String
  value : Json

/-- A value together with what was ignored on the way to it. -/
abbrev Checked (α : Type) := α × List Ignored

namespace Json

def flag? : Json → Option Bool
  | bool b => some b
  | _ => none

def filledText? : Json → Option String
  | string s => if s.isEmpty then none else some s
  | _ => none

/-- A finite number above zero. -/
def positive? : Json → Option Number
  | number n => if n.isFinite && Number.less 0 n then some n else none
  | _ => none

/-- A natural number. -/
def count? : Json → Option Number
  | number n => if n.isInteger && Number.atMost 0 n then some n else none
  | _ => none

def text? : Json → Option String
  | string s => some s
  | _ => none

def texts? : Json → Option (List String)
  | array items => items.mapM text?
  | _ => none

end Json

namespace Config

/-- The value of a field: its own if it is usable, and otherwise the default. -/
def check {α : Type} (field : String) (read : Json → Option α) (fallback : α) :
    Option Json → Checked α
  | none => (fallback, [])
  | some value =>
    match read value with
    | some a => (a, [])
    | none => (fallback, [⟨field, value⟩])

/-- The rows of a table of modules. A row that is not a list of texts is ignored, and so is one
named `__proto__`, which no table can hold. -/
def tableRows : List (String × Json) → Checked (Fields (List String))
  | [] => ([], [])
  | (module, value) :: rest =>
    let (rows, ignored) := tableRows rest
    match value.texts? with
    | some names => (if module == "__proto__" then rows else (module, names) :: rows, ignored)
    | none => (rows, ⟨"discovery.extraSubmodules." ++ module, value⟩ :: ignored)

def table : Option Json → Checked (Fields (List String))
  | none => ([], [])
  | some (.object rows) => tableRows rows
  | some value => ([], [⟨"discovery.extraSubmodules", value⟩])

/-- A section of a configuration. One that is not an object counts as empty. -/
def part (config : Json) (name : String) : Json :=
  match config.get? name with
  | some (.object fields) => .object fields
  | _ => .object []

/-- The settings that an object configures, for a project in an absolute folder. -/
def resolveObject (base : Settings) (root : String) (config : Json) : Checked Settings :=
  let cache := part config "cache"
  let discovery := part config "discovery"
  let (directory, ignored₁) :=
    check "cache.directory" (fun value => value.filledText?.map (Path.resolve root))
      base.cache.directory (cache.get? "directory")
  let (maxDepth, ignored₂) :=
    check "discovery.maxDepth" Json.count? base.discovery.maxDepth (discovery.get? "maxDepth")
  let (python, ignored₃) :=
    check "discovery.python" Json.filledText? base.python (discovery.get? "python")
  let (excluded, ignored₄) :=
    check "discovery.excluded" Json.texts? base.discovery.excluded (discovery.get? "excluded")
  let (debug, ignored₅) := check "debug" Json.flag? base.debug (config.get? "debug")
  let (cacheEnabled, ignored₆) :=
    check "cache.enabled" Json.flag? base.cache.enabled (cache.get? "enabled")
  let (maxSizeMB, ignored₇) :=
    check "cache.maxSizeMB" Json.positive? base.cache.maxSizeMB (cache.get? "maxSizeMB")
  let (retentionDays, ignored₈) :=
    check "cache.retentionDays" Json.positive? base.cache.retentionDays
      (cache.get? "retentionDays")
  let (discoveryEnabled, ignored₉) :=
    check "discovery.enabled" Json.flag? base.discovery.enabled (discovery.get? "enabled")
  let (extraSubmodules, ignored₁₀) := table (discovery.get? "extraSubmodules")
  ({ debug, python
     cache := { enabled := cacheEnabled, directory, maxSizeMB, retentionDays }
     discovery := { enabled := discoveryEnabled, maxDepth, extraSubmodules, excluded } },
    ignored₁ ++ ignored₂ ++ ignored₃ ++ ignored₄ ++ ignored₅ ++ ignored₆ ++ ignored₇ ++ ignored₈
      ++ ignored₉ ++ ignored₁₀)

/-- The settings that any value configures. Null stands for no configuration. -/
def resolve (home root : String) (config : Json) : Checked Settings :=
  let base := Settings.default home
  match config with
  | .null => (base, [])
  | .object fields => resolveObject base root (.object fields)
  | value => (base, [⟨"config", value⟩])

end Config

def Ignored.warning (ignored : Ignored) : Warning where
  code := .invalidConfig
  message := "ignoring " ++ ignored.field ++ "=" ++ ignored.value.compact
  hint := "falling back to the default value"

namespace Effect

/-- The settings for a project folder, with a warning for each part that is ignored. -/
def resolveSettings (root : String) (config : Json) : Effect Settings := do
  let (settings, ignored) :=
    Config.resolve (← get).environment.home (← resolvePath root) config
  for item in ignored do warn item.warning
  return settings

end Effect

end ScriptPack

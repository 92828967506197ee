import ScriptPack.Discovery.Bundled
import ScriptPack.Discovery.Interpreter
import ScriptPack.Discovery.Resolver
import ScriptPack.Discovery.Scan
import ScriptPack.Discovery.Submodules
import ScriptPack.Settings

/-!
Which modules a script needs that a packaging tool may not find. The names that the script and its
neighbours import, and the submodules that go with them, are sorted into those that come with
Python, those that are excluded, those that do not exist, and the rest, which is the answer.
-/

namespace ScriptPack

open Effect

namespace Discovery

/-- Names that are never needed, though they belong to no module that could be left out. -/
def excludedNames : List String := ["__future__", "__main__", "typing"]

/-- What became of the names that were found; each list is in order. -/
structure Report where
  modules : List String
  /-- The files that were read, in the order in which they were reached. -/
  visited : List String
  stdlib : List String
  excluded : List String
  unresolved : List String
  deriving DecidableEq, Repr

def Report.empty : Report := ⟨[], [], [], [], []⟩

/-- Settings that are to be changed; the other ones stay. -/
structure DiscoveryChange where
  enabled : Option Bool
  maxDepth : Option Number
  extraSubmodules : Option (Fields (List String))
  excluded : Option (List String)

def DiscoveryChange.apply (change : DiscoveryChange) (settings : DiscoverySettings) :
    DiscoverySettings where
  enabled := change.enabled.getD settings.enabled
  maxDepth := change.maxDepth.getD settings.maxDepth
  extraSubmodules := change.extraSubmodules.getD settings.extraSubmodules
  excluded := change.excluded.getD settings.excluded

end Discovery

open Discovery

structure Discoverer where
  settings : DiscoverySettings
  resolver : Resolver
  /-- The names of the modules that come with Python. -/
  stdlib : List String

namespace Discoverer

/-- A discoverer that takes all modules to exist. -/
def unverified (settings : DiscoverySettings) : Discoverer :=
  ⟨settings, .acceptAll, bundledModules⟩

def update (discoverer : Discoverer) (change : DiscoveryChange) : Discoverer :=
  { discoverer with settings := change.apply discoverer.settings }

/-- Sorts names, which are in order, into a report. -/
def classify (discoverer : Discoverer) : List String → Effect (Report × Discoverer)
  | [] => return (.empty, discoverer)
  | name :: rest => do
    if discoverer.stdlib.contains name then
      let (report, discoverer) ← discoverer.classify rest
      return ({ report with stdlib := name :: report.stdlib }, discoverer)
    else if (excludedNames ++ discoverer.settings.excluded).contains name then
      let (report, discoverer) ← discoverer.classify rest
      return ({ report with excluded := name :: report.excluded }, discoverer)
    else
      let (isKnown, resolver) ← discoverer.resolver.resolves name
      let (report, discoverer) ← { discoverer with resolver }.classify rest
      if isKnown then return ({ report with modules := name :: report.modules }, discoverer)
      else return ({ report with unresolved := name :: report.unresolved }, discoverer)

/-- The names that a scan leads to, in order, each once. -/
def candidates (settings : DiscoverySettings) (scan : Scan) : Except Failure (List String) := do
  let added ← expandSubmodules scan.names settings.extraSubmodules
  return Text.Utf16.sort (scan.names ++ added).eraseDups

/-- The report on a script, given by its absolute path. -/
def reportOn (discoverer : Discoverer) (entry : String) : Effect (Report × Discoverer) := do
  if Path.extension entry != ".py" || !(← Files.isFile entry) then
    logFields .discovery "not a python script, skipping discovery" [("entry", .string entry)]
    return (.empty, discoverer)
  let scan ← Scan.run discoverer.settings.maxDepth entry
  match candidates discoverer.settings scan with
  | .error failure => fail failure
  | .ok names =>
    let (report, discoverer) ← discoverer.classify names
    let report := { report with visited := scan.visited }
    let count := report.modules.length
    log .discovery ("discovered " ++ toString count ++ " hidden imports")
      [.array (report.modules.map .string)]
    traceInfo "discovery.done"
      [("entry", .string entry), ("visited", .number (.ofNat report.visited.length)),
        ("modules", .number (.ofNat count))]
    return (report, discoverer)

/-- The report on a script. It is empty if the search fails or is switched off. -/
def report (discoverer : Discoverer) (script : String) : Effect (Report × Discoverer) := do
  if !discoverer.settings.enabled then return (.empty, discoverer)
  match ← attempt (discoverer.reportOn (← resolvePath script)) with
  | .ok result => return result
  | .error failure =>
    warnFailed .discoveryFailed ("import discovery for " ++ script ++ " failed") failure
    return (.empty, discoverer)

/-- The modules that a script needs. -/
def discover (discoverer : Discoverer) (script : String) : Effect (List String × Discoverer) := do
  let (report, discoverer) ← discoverer.report script
  return (report.modules, discoverer)

/-- A discoverer that checks names with an interpreter. If that cannot be asked, or is not to be
asked, all modules are taken to exist. -/
def create (run : Runner) (verify : Bool) (settings : DiscoverySettings) (python : String) :
    Effect Discoverer := do
  if !verify || !settings.enabled then return unverified settings
  match ← Interpreter.probe run python with
  | none =>
    warn ⟨.discoveryFailed,
      "cannot probe " ++ python ++ "; discovered names will not be verified",
      "set discovery.python in exepack.config.js"⟩
    return unverified settings
  | some interpreter =>
    return ⟨settings, .searchPaths (.ofRoots interpreter.searchPaths),
      bundledModules ++ interpreter.modules⟩

end Discoverer

end ScriptPack

import ScriptPack.Cache.Find
import ScriptPack.Cache.Keep
import ScriptPack.Discovery.Discoverer
import ScriptPack.Packaging.Arguments
import ScriptPack.Packaging.Delivery

/-!
Packaging a script. If the cache has a result for the script as it is and for the same arguments,
that is delivered; otherwise the engine is run, with the modules that the script needs, and its
result is delivered and kept. The arguments that count are those of the caller, without the modules;
and a script that changes while the engine runs is not kept. Only the engine or the delivery of its
result can make packaging fail.
-/

namespace ScriptPack.Packaging

open Effect

/-- Turns a script into a program and returns the path of the result. -/
abbrev Engine := BuildRequest → Effect String

structure Request where
  scriptPath : String
  args : List String
  /-- The folder that the engine writes to. -/
  distPath : String
  /-- The folder in which the result is delivered. -/
  outputDir : String
  deriving DecidableEq, Repr

structure Result where
  cached : Bool
  outputDir : String
  hiddenImports : List String
  /-- Whether the result of a build is now in the cache. -/
  stored : Bool
  deriving DecidableEq, Repr

/-- What packaging can make use of. -/
structure Tools where
  cache : Option Cache
  discoverer : Option Discoverer

/-- The arguments as the text under which a build is filed. -/
def Request.invocation (request : Request) : String := " ".intercalate request.args

/-- The signature of the script, if there is a cache to use it. -/
def Tools.signature? (tools : Tools) (request : Request) : Effect (Option String) :=
  match tools.cache with
  | some cache =>
    if cache.settings.enabled then Cache.signature? request.scriptPath request.invocation
    else return none
  | none => return none

def Tools.lookup (tools : Tools) (signature : Option String) : Effect (Option String × Tools) := do
  match tools.cache, signature with
  | some cache, some signature =>
    let (artifact, cache) ← cache.lookupSignature signature
    return (artifact, { tools with cache := some cache })
  | _, _ => return (none, tools)

/-- Delivers an artifact of the cache; whether that worked is returned. -/
def deliverCached (request : Request) (artifact : String) : Effect Bool := do
  match ← attempt (deliver artifact request.outputDir) with
  | .ok _ =>
    logFields .packaging "using cached build, skipping engine"
      [("outputDir", .string request.outputDir)]
    return true
  | .error failure =>
    warn ⟨.cacheWriteFailed, "cannot deliver cached build: " ++ failure.message,
      "building from scratch instead"⟩
    return false

def Tools.discover (tools : Tools) (script : String) : Effect (List String × Tools) := do
  match tools.discoverer with
  | none => return ([], tools)
  | some discoverer =>
    let (modules, discoverer) ← discoverer.discover script
    return (modules, { tools with discoverer := some discoverer })

/-- Runs the engine and delivers what it made; the path of that is returned. -/
def buildAndDeliver (engine : Engine) (request : Request) (modules : List String) :
    Effect String := do
  let produced ← engine
    { scriptPath := request.scriptPath
      args := request.args ++ hiddenImportArgs modules
      distPath := request.distPath }
  deliver produced request.outputDir
  return produced

/-- Keeps a result that was made from the script with the given signature. -/
def Tools.keep (tools : Tools) (request : Request) (signature : Option String) (produced : String) :
    Effect (Bool × Tools) := do
  match tools.cache, signature with
  | some cache, some signature =>
    let (stored, cache) ←
      cache.keep request.scriptPath request.invocation produced (some signature)
    return (stored, { tools with cache := some cache })
  | _, _ => return (false, tools)

def build (engine : Engine) (request : Request) (signature : Option String) (tools : Tools) :
    Effect (Except Failure Result × Tools) := do
  let (modules, tools) ← tools.discover request.scriptPath
  if !modules.isEmpty then
    log .packaging "adding hidden imports" [.array (modules.map .string)]
  match ← attempt (buildAndDeliver engine request modules) with
  | .error failure => return (.error failure, tools)
  | .ok produced =>
    logFields .packaging "build delivered" [("outputDir", .string request.outputDir)]
    let (stored, tools) ← tools.keep request signature produced
    return (.ok ⟨false, request.outputDir, modules, stored⟩, tools)

/-- Packages a script. -/
def package (engine : Engine) (request : Request) (tools : Tools) :
    Effect (Except Failure Result × Tools) := do
  let signature ← tools.signature? request
  let (artifact, tools) ← tools.lookup signature
  match artifact with
  | none => build engine request signature tools
  | some artifact =>
    if ← deliverCached request artifact then
      return (.ok ⟨true, request.outputDir, [], false⟩, tools)
    else build engine request signature tools

end ScriptPack.Packaging

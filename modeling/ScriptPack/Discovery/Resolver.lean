import ScriptPack.Diagnostics.Log
import ScriptPack.Discovery.SearchPath

/-!
What decides whether a module exists: a rule, which may fail, or the search paths of an interpreter.
-/

namespace ScriptPack.Discovery

open Effect

inductive Resolver
  | rule (accepts : String → Except Failure Bool)
  | searchPaths (paths : SearchPaths)

namespace Resolver

/-- Takes every module to exist. -/
def acceptAll : Resolver := rule fun _ => .ok true

/-- Whether a module exists. A module about which the rule fails does not. -/
def resolves (resolver : Resolver) (module : String) : Effect (Bool × Resolver) := do
  match resolver with
  | rule accepts =>
    match accepts module with
    | .ok answer => return (answer, resolver)
    | .error failure =>
      logFields .discovery "resolver failed"
        [("name", .string module), ("error", .string failure.message)]
      return (false, resolver)
  | searchPaths paths =>
    let (answer, paths) ← paths.canResolve module
    return (answer, searchPaths paths)

end Resolver

end ScriptPack.Discovery

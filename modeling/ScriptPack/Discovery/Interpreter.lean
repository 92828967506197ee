import ScriptPack.Diagnostics.Log
import ScriptPack.Json.Read
import ScriptPack.Text.Blank

/-!
Asking a Python interpreter what it knows: its version, the names of its own modules and where it
looks for others. An interpreter that cannot be run, or answers with something else, is not used.
-/

namespace ScriptPack.Discovery

open Effect

/-- Runs a command with arguments and returns what it prints. -/
abbrev Runner := String → List String → Effect String

structure Interpreter where
  command : String
  version : String
  /-- The modules that come with it, each name once. -/
  modules : List String
  searchPaths : List String
  deriving DecidableEq, Repr

/-- The Python program that prints what is asked for, as JSON. -/
def probeProgram : String :=
  "\n".intercalate
    ["import json, sys",
     "print(json.dumps(\x7b",
     "  \"version\": \"%d.%d.%d\" % sys.version_info[:3],",
     "  \"stdlib\": sorted(getattr(sys, \"stdlib_module_names\", ())),",
     "  \"builtin\": sorted(sys.builtin_module_names),",
     "  \"path\": [p for p in sys.path if p],",
     "\x7d))"]

/-- The texts in a list; other values in it are passed over. -/
def textsIn? : Json → Option (List String)
  | .array items => some (items.filterMap fun
    | .string s => some s
    | _ => none)
  | _ => none

namespace Interpreter

/-- What an answer says about the interpreter that gave it. -/
def ofAnswer? (command answer : String) : Option Interpreter := do
  let document ← Json.parse? (String.ofList (Text.trim answer.toList))
  let version ←
    match ← document.get? "version" with
    | .string s => if s.isEmpty then none else some s
    | _ => none
  let stdlib ← textsIn? (← document.get? "stdlib")
  let builtin ← textsIn? (← document.get? "builtin")
  let searchPaths ← textsIn? (← document.get? "path")
  return { command, version, modules := (stdlib ++ builtin).eraseDups, searchPaths }

/-- Asks an interpreter about itself. -/
def probe (run : Runner) (command : String) : Effect (Option Interpreter) := do
  match ← attempt (run command ["-c", probeProgram]) with
  | .ok answer =>
    let found := ofAnswer? command answer
    if found.isNone then
      logFields .discovery "unexpected interpreter probe output" [("python", .string command)]
    return found
  | .error failure =>
    logFields .discovery "python probe failed"
      [("python", .string command), ("error", .string failure.message)]
    return none

end Interpreter

end ScriptPack.Discovery

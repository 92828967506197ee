import ScriptPack.Json.Write
import ScriptPack.World

/-!
Trace events. They are written when the environment asks for them, down to a level, each as one line
of JSON.
-/

namespace ScriptPack

namespace Level

def name : Level → String
  | error => "error"
  | warn => "warn"
  | info => "info"
  | debug => "debug"

def ofName? (name : String) : Option Level :=
  [error, warn, info, debug].find? (·.name == name)

/-- The urgent levels come first. -/
def rank : Level → Nat
  | error => 0
  | warn => 1
  | info => 2
  | debug => 3

end Level

namespace Trace

def isOn (environment : Environment) : Bool :=
  environment.trace.any fun value => value == "1" || value == "true" || value == "yes"

/-- The last level that is shown; letters of either case are understood. -/
def threshold (environment : Environment) : Level :=
  let text := (environment.traceLevel.getD "").toList.map Char.toLower
  (Level.ofName? (String.ofList text)).getD .info

def shows (environment : Environment) (level : Level) : Bool :=
  isOn environment && decide (level.rank ≤ (threshold environment).rank)

/-- A time with three decimal places; a half is rounded away from zero. -/
def roundTime : Number → Number
  | .finite q =>
    if (Nat.pow 10 21 : Rat) ≤ q.abs then .finite q
    else
      let thousandths : Rat := (q.abs * 1000 + 1 / 2).floor
      .ofRat (if q < 0 then -(thousandths / 1000) else thousandths / 1000)
  | t => t

/-- The line of an event at a time. -/
def format (time processId : Number) (level event : String) (data : Option Json) : String :=
  Json.compact (.object
    ([("t", .number (roundTime time)), ("pid", .number processId), ("level", .string level),
      ("event", .string event)] ++ data.toList.map fun data => ("data", data)))

end Trace

namespace Effect

/-- Writes an event if its level is shown. -/
def trace (level : Level) (event : String) (data : Option Json) : Effect Unit := do
  if Trace.shows (← get).environment level then write (.event level event data)

def traceInfo (event : String) (data : List (String × Json)) : Effect Unit :=
  trace .info event (some (.object data))

end Effect

end ScriptPack

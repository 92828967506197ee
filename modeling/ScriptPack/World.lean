import ScriptPack.FileSystem.Lookup
import ScriptPack.Json.Value
import ScriptPack.Number.Binary64

/-!
What operations act on: the file system, the clock, the settings of the environment, and the lines
written so far. An operation is a function of this world; it ends with a value, with a failure, or
because the process is stopped. Changes made before a failure or a stop stay.
-/

namespace ScriptPack

inductive Level
  | error | warn | info | debug
  deriving DecidableEq, Repr

inductive Stream
  | out | err
  deriving DecidableEq, Repr

/-- What a message of the debug log is about. -/
inductive Scope
  | cache | discovery | parser | packaging | config
  deriving DecidableEq, Repr

/-- A line written for the user. -/
inductive Line
  | event (level : Level) (name : String) (data : Option Json)
  /-- A message of the debug log, with the values that it shows. -/
  | log (stream : Stream) (scope : Scope) (values : List Json)
  /-- Text as it is, with its line ends. -/
  | text (stream : Stream) (text : String)

/-- The environment variables that are looked at. -/
structure Environment where
  home : String
  /-- The folder for files that are needed only for a while. -/
  temporaryFolder : String
  trace : Option String
  traceLevel : Option String
  debug : Option String

structure World where
  root : Node
  workingDirectory : String
  /-- Milliseconds since the epoch. -/
  clock : Number
  /-- The time of modification of files that are written now. -/
  stamp : Stamp
  processId : String
  environment : Environment
  debugSwitch : Bool
  /-- The lines written so far, the last one first. -/
  lines : List Line
  /-- How many more steps the process makes before it is stopped; without a number it goes on. -/
  stepsLeft : Option Nat

inductive Stop
  | failed (failure : Failure)
  | interrupted
  deriving DecidableEq, Repr

/-- An operation on the world. -/
abbrev Effect := ExceptT Stop (StateM World)

namespace Effect

def fail {α : Type} (failure : Failure) : Effect α := throw (.failed failure)

def failSystem {α : Type} (error : SystemError) : Effect α := fail (.system error)

/-- Runs an operation and returns its failure, if there is one, as a value. -/
def attempt {α : Type} (action : Effect α) : Effect (Except Failure α) := fun world =>
  match action world with
  | (.ok a, world) => (.ok (.ok a), world)
  | (.error (.failed failure), world) => (.ok (.error failure), world)
  | (.error .interrupted, world) => (.error .interrupted, world)

/-- Uses up one step of the process, or stops it. -/
def step : Effect Unit := do
  let world ← get
  match world.stepsLeft with
  | none => pure ()
  | some 0 => throw .interrupted
  | some (n + 1) => set { world with stepsLeft := some n }

def write (line : Line) : Effect Unit :=
  modify fun world => { world with lines := line :: world.lines }

def say (stream : Stream) (line : String) : Effect Unit := write (.text stream (line ++ "\n"))

/-- The absolute form of a path, in which links and dots are left as they are. -/
def absolute (world : World) (path : String) : String :=
  if path.isEmpty || Path.isAbsolute path then path
  else world.workingDirectory ++ "/" ++ path

/-- The normalised absolute form of a path. -/
def resolvePath (path : String) : Effect String := do
  return Path.resolve (← get).workingDirectory path

/-- What a path leads to. -/
def lookup (follow : Bool) (path : String) : Effect Place := do
  let world ← get
  match Lookup.place? world.root follow (absolute world path) with
  | .ok place => return place
  | .error error => failSystem error

def changeRoot (f : Node → Node) : Effect Unit :=
  modify fun world => { world with root := f world.root }

end Effect

end ScriptPack

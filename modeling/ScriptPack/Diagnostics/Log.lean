import ScriptPack.World

/-!
The debug log. It is silent unless it is switched on, by the program or by the environment.
-/

namespace ScriptPack

namespace Scope

def name : Scope → String
  | cache => "cache"
  | discovery => "discovery"
  | parser => "parser"
  | packaging => "packaging"
  | config => "config"

def ofName? (name : String) : Option Scope :=
  [cache, discovery, parser, packaging, config].find? (·.name == name)

/-- What stands in front of the messages of a scope. -/
def label (scope : Scope) : String := "[exepack:" ++ scope.name ++ "]"

end Scope

def World.debugEnabled (world : World) : Bool :=
  world.debugSwitch || world.environment.debug == some "1"

namespace Effect

def setDebug (on : Bool) : Effect Unit := modify fun world => { world with debugSwitch := on }

def logTo (stream : Stream) (scope : Scope) (values : List Json) : Effect Unit := do
  if (← get).debugEnabled then write (.log stream scope values)

def log (scope : Scope) (message : String) (values : List Json) : Effect Unit :=
  logTo .out scope (.string message :: values)

/-- A message that shows one object. -/
def logFields (scope : Scope) (message : String) (fields : List (String × Json)) : Effect Unit :=
  log scope message [.object fields]

end Effect

end ScriptPack

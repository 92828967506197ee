import ScriptPack.Json.Value
import ScriptPack.Path

/-!
The settings of the cache and of the search for imports, and their defaults. The default place of
the cache is in the home folder.
-/

namespace ScriptPack

structure CacheSettings where
  enabled : Bool
  /-- The folder of the artifacts and of the document that lists them. -/
  directory : String
  /-- The size in mebibytes above which old artifacts are removed. -/
  maxSizeMB : Number
  retentionDays : Number

structure DiscoverySettings where
  enabled : Bool
  /-- How many steps from a script to its neighbours are made. -/
  maxDepth : Number
  /-- Modules that are needed along with a module. -/
  extraSubmodules : Fields (List String)
  /-- Names that are never reported. -/
  excluded : List String

structure Settings where
  debug : Bool
  cache : CacheSettings
  discovery : DiscoverySettings
  /-- The interpreter that is asked for its modules. -/
  python : String

namespace Settings

def cacheRoot (home : String) : String := Path.join [home, ".exepack", "cache"]

/-- The settings that hold where nothing else is configured. -/
def default (home : String) : Settings where
  debug := false
  cache := { enabled := true, directory := cacheRoot home, maxSizeMB := 1024, retentionDays := 30 }
  discovery := { enabled := true, maxDepth := 3, extraSubmodules := [], excluded := [] }
  python := "python3"

end Settings

end ScriptPack

import ScriptPack.ByteSize
import ScriptPack.CommandLine.Engine
import ScriptPack.CommandLine.Usage
import ScriptPack.Config.Load

/-!
The commands of the command line. Each one writes what it has to say and returns the exit code.
-/

namespace ScriptPack.CommandLine

open Effect Discovery Packaging

def good (message : String) : String := "✓ " ++ message

def bad (message : String) : String := "✗ " ++ message

/-- The arguments from the first one that equals a word on. -/
def fromWord (word : String) (args : List String) : List String := args.dropWhile (· != word)

def cacheStatus (settings : Settings) (cache : Cache) : Effect Unit := do
  let stats := cache.stats
  let used := ByteSize.text (stats.totalSizeMB * 1024 * 1024)
  say .out (good ("Cache directory: " ++ stats.cacheDirectory))
  say .out (good ("Cache entries: " ++ toString stats.entryCount))
  say .out (good ("Disk usage: " ++ used ++ " of " ++ stats.maxSizeMB.text ++ " MB"))
  say .out (good ("Retention: " ++ stats.retentionDays.text ++ " days"))
  if !settings.cache.enabled then say .out (bad "Cache is disabled in exepack.config.js")

def cacheCommand (settings : Settings) (args : List String) : Effect Nat := do
  match args.head? with
  | some "status" =>
    cacheStatus settings (← Cache.load settings.cache)
    return 0
  | some "clear" =>
    let cache ← Cache.load settings.cache
    let (cleared, cache) ← cache.clear
    if cleared then
      say .out (good "Cache cleared")
      return 0
    else
      say .err (bad ("Could not clear " ++ cache.directory))
      return 1
  | _ =>
    say .err cacheUsage
    return 1

def reportJson (report : Report) : Json :=
  let texts (names : List String) : Json := .array (names.map .string)
  .object
    [("modules", texts report.modules), ("visited", texts report.visited),
     ("dropped", .object
       [("stdlib", texts report.stdlib), ("excluded", texts report.excluded),
        ("unresolved", texts report.unresolved)])]

def sayReport (report : Report) : Effect Unit := do
  say .out ("Scanned " ++ toString report.visited.length ++ " file(s)")
  if report.modules.isEmpty then say .out "No hidden imports detected"
  for module in report.modules do say .out ("  --hidden-import " ++ module)

def discoverCommand (programs : Programs) (settings : Settings) (args : List String) :
    Effect Nat := do
  let script := args.head?.getD ""
  if script.isEmpty || Text.startsWith script "-" then
    say .err discoverUsage
    return 1
  if !(← Files.exists? script) then
    say .err ("No such file: " ++ script)
    return 1
  let verify := !args.contains "--no-verify"
  let discoverer ← Discoverer.create programs.output verify
    { settings.discovery with enabled := true } settings.python
  let (report, _) ← discoverer.report script
  if args.contains "--json" then say .out (reportJson report).indented else sayReport report
  return 0

/-- The first free name for a folder, with a number of six digits at its end. -/
def freeName (start : String) (n : Nat) : Nat → Effect String
  | 0 => return start ++ String.ofList (Timestamp.padded 6 n)
  | tries + 1 => do
    let path := start ++ String.ofList (Timestamp.padded 6 n)
    match ← lookup false path with
    | .free _ => return path
    | .found _ _ => freeName start (n + 1) tries

/-- Makes a new folder for the files of a build. -/
def makeWorkFolder : Effect String := do
  let parent := (← get).environment.temporaryFolder
  let taken := (← Files.list parent).length
  let path ← freeName (Path.join [parent, "exepack-build-"]) 0 taken
  Files.makeFolders path
  return path

def sayResult (result : Result) : Effect Unit := do
  if result.cached then say .out (good ("Reused cached build in " ++ result.outputDir))
  else say .out (good ("Built into " ++ result.outputDir))
  if !result.hiddenImports.isEmpty then
    say .out (good ("Added hidden imports: " ++ ", ".intercalate result.hiddenImports))

/-- Builds a script with a working folder that is there for the time of the build. -/
def buildScript (programs : Programs) (settings : Settings) (command script output : String)
    (args : List String) : Effect Nat := do
  let workFolder ← makeWorkFolder
  let cache ← Cache.load settings.cache
  let discoverer ← Discoverer.create programs.output true settings.discovery settings.python
  let (result, _) ← package (engine programs command workFolder)
    { scriptPath := script, args, distPath := Path.join [workFolder, "application"]
      outputDir := output }
    ⟨some cache, some discoverer⟩
  match result with
  | .ok result => sayResult result
  | .error failure => say .err (bad ("Build failed: " ++ failure.message))
  Files.removeAll workFolder
  return (if result.isOk then 0 else 1)

def buildCommand (programs : Programs) (settings : Settings) (args : List String) :
    Effect Nat := do
  match (fromWord "--" args).drop 1 with
  | command :: engineArguments =>
    if command.isEmpty then
      say .err buildUsage
      return 1
    match scriptPath? engineArguments with
    | none =>
      say .err "Could not find the entry script (a .py argument) in the engine arguments"
      return 1
    | some script =>
      let own := args.takeWhile (· != "--")
      let output := ((fromWord "--out" own)[1]?).getD "output"
      buildScript programs settings command script (← resolvePath output) engineArguments
  | [] =>
    say .err buildUsage
    return 1

def interpreterHealth (programs : Programs) (settings : Settings) : Effect String := do
  match ← Interpreter.probe programs.output settings.python with
  | some found =>
    return good ("Python " ++ found.version ++ " (" ++ found.command ++ "), "
      ++ toString found.searchPaths.length ++ " search paths")
  | none =>
    return bad ("Python not runnable as \"" ++ settings.python
      ++ "\" (hidden imports won't be verified)")

def cacheHealth (settings : Settings) : Effect String := do
  let root := settings.cache.directory
  if !(← Files.exists? root) then return good ("Cache directory will be created at " ++ root)
  else if ← Files.isFolder root then return good ("Cache directory OK (" ++ root ++ ")")
  else return bad ("Cache path is not a directory: " ++ root)

def doctorCommand (programs : Programs) (settings : Settings) : Effect Nat := do
  let lines :=
    [← interpreterHealth programs settings, ← cacheHealth settings, good "Python grammar loaded"]
  say .out ("\n".intercalate lines)
  return (if lines.any (Text.startsWith · "✗") then 1 else 0)

/-- The settings for the current folder. They can switch the debug log on. -/
def loadSettings : Effect Settings := do
  let folder := (← get).workingDirectory
  let (config, _) ← KnownConfig.empty.load folder
  let settings ← resolveSettings folder config
  if settings.debug then setDebug true
  return settings

def command (programs : Programs) (name : String) (args : List String) : Effect Nat := do
  let settings ← loadSettings
  match name with
  | "cache" => cacheCommand settings args
  | "discover" => discoverCommand programs settings args
  | "build" => buildCommand programs settings args
  | "doctor" => doctorCommand programs settings
  | _ =>
    say .err ("Unknown command: " ++ name)
    say .out usage
    return 1

/-- Runs the program with its arguments and returns the exit code. -/
def run (programs : Programs) (args : List String) : Effect Nat := do
  let name := args.head?.getD ""
  if name.isEmpty || name == "-h" || name == "--help" then
    say .out usage
    return 0
  match ← attempt (command programs name args.tail) with
  | .ok code => return code
  | .error failure =>
    say .err ("[exepack] " ++ failure.message)
    return 1

end ScriptPack.CommandLine

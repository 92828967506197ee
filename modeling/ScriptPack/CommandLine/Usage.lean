/-!
The help texts of the command line.
-/

namespace ScriptPack.CommandLine

def usage : String :=
  "\n".intercalate
    ["exepack",
     "",
     "Usage:",
     "\texepack cache status",
     "\texepack cache clear",
     "\texepack discover <script.py> [--json] [--no-verify]",
     "\texepack build [--out <dir>] -- <engine> <engine args...>",
     "\texepack doctor",
     "",
     "Examples:",
     "\tnpx exepack discover app.py",
     "\tnpx exepack build --out output -- pyinstaller --onefile app.py",
     "\tnpx exepack cache status",
     "",
     "Notes:",
     "\t- Settings come from exepack.config.js in the current directory (all optional)",
     "\t- Set EXEPACK_DEBUG=1 for debug logs, EXEPACK_TRACE=1 for JSON trace events",
     "\t- discover: --no-verify keeps names that can't be found in the python environment",
     ""]

def cacheUsage : String := "Usage: exepack cache <status|clear>"

def discoverUsage : String := "Usage: exepack discover <script.py> [--json] [--no-verify]"

def buildUsage : String := "Usage: exepack build [--out <dir>] -- <engine> <engine args...>"

end ScriptPack.CommandLine

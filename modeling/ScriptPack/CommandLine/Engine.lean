import ScriptPack.Diagnostics.Log
import ScriptPack.Packaging.Package

/-!
Packaging with another program as the engine. The build succeeds if the program ends with the code
zero; its result is what it wrote to the folder that it was given.
-/

namespace ScriptPack.CommandLine

open Effect Packaging

/-- How a program ended. -/
inductive Exit
  | code (n : Nat)
  | signal (name : String)
  deriving DecidableEq, Repr

def Exit.reason : Exit → String
  | code n => "code " ++ toString n
  | signal name => name

/-- How other programs are run. -/
structure Programs where
  /-- Runs a program and returns what it prints. -/
  output : Discovery.Runner
  /-- Runs a program that prints to the terminal. -/
  run : String → List String → Effect Exit

/-- The engine that is another program and has a folder for its own files. -/
def engine (programs : Programs) (command workFolder : String) : Engine := fun request => do
  let args := engineArgs request workFolder
  log .packaging "executing" [.string command, .string (" ".intercalate args)]
  let exit ← programs.run command args
  if exit == .code 0 then return request.distPath
  else fail (.reported (command ++ " exited with " ++ exit.reason))

end ScriptPack.CommandLine

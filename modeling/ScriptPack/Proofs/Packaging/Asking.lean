import ScriptPack.Proofs.Cache.Purging
import ScriptPack.Proofs.Cache.Stopping
import ScriptPack.Proofs.Packaging.Phases

/-!
What can make a call fail. Whatever goes wrong with the cache or in the search for modules, a call
delivers what the cache has or asks the engine, once; it fails only if the engine does or if what that
made cannot be delivered. If the engine fails, the cache is what it was, but that the record of an
artifact that was gone may have been dropped.
-/

namespace ScriptPack.Packaging

open Effect Cache Node Lookup

variable {engine : Engine} {request : Request} {tools tools' : Tools} {w w' : World}
  {signature artifact : Option String} {modules : List String}

/-! ### Phases that come to an end -/

/-- How a call goes on with the answer of the engine. -/
def finish (request : Request) (signature : Option String) (modules : List String) (tools : Tools) :
    Except Stop String → Effect (Except Failure Result × Tools)
  | .error (.failed failure) => return (.error failure, tools)
  | .error .interrupted => throw .interrupted
  | .ok produced => do
    match ← attempt (deliver produced request.outputDir) with
    | .error failure => return (.error failure, tools)
    | .ok _ =>
      logFields .packaging "build delivered" [("outputDir", .string request.outputDir)]
      let (stored, tools) ← tools.keep request signature produced
      return (.ok ⟨false, request.outputDir, modules, stored⟩, tools)

/-- A cache after a call: its records, its document and its artifacts are what they were, or the
record of an artifact that was gone has been dropped. -/
inductive Unharmed (cache cache' : Cache) (w w' : World) : Prop
  | same (records : cache' = cache)
      (entries : contents cache.directory w' = contents cache.directory w)
  | purged {signature : String} {w₁ : World} (records : Purges cache signature cache' w w₁)
      (entries : contents cache.directory w' = contents cache.directory w₁)

theorem Unharmed.trans {cache cache' : Cache} {w₁ : World} (h : Unharmed cache cache' w w₁)
    (hsame : contents cache.directory w' = contents cache.directory w₁) :
    Unharmed cache cache' w w' := by
  cases h with
  | same records entries => exact .same records (hsame.trans entries)
  | purged records entries => exact .purged records (hsame.trans entries)

def failing : Engine := fun _ => failSystem .noEntry

/-- A script, the folder of a cache, and a folder to deliver to. -/
def site (entries output : List (String × Node)) : World := .start (.folder [("W", .folder
  [("a.py", .file [112] ⟨1700000000, 0⟩), ("c", .folder entries), ("o", .folder output)])])

/-- A cache that has a record for the script. -/
def recorded : Cache where
  settings := ⟨true, "/W/c", 1, 30⟩
  store := ⟨"/W/c", [⟨"785f08fa545ce748ed44576a938adc142382dd9f3a644ff024073a6d3aedf3a1", "build_x",
    .at 1767225600000, "/W/a.py", "", 3⟩]⟩

/-- What a call with the cache comes to if the engine fails. -/
def call (w : World) : Except Stop (Except Failure Result × Tools) × World :=
  package failing ⟨"/W/a.py", [], "/W/d", "/W/o"⟩ ⟨some recorded, none⟩ w

/-- Another artifact is there, but not the one of the record. -/
def stale : World := site [("build_y", .file [1] ⟨0, 0⟩), (documentName, .file [3] ⟨0, 0⟩)] []

end ScriptPack.Packaging

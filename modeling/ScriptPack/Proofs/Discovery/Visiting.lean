import Mathlib.Data.List.Nodup
import ScriptPack.Proofs.Discovery.Outcome
import ScriptPack.Proofs.Number.Magnitude

/-!
Which files a search visits, in closed form: the script, and then the other Python files in its
folder in the order of their names, each once. A second step leads to no other files, because the
neighbours of a neighbour are in the same folder; so it does not matter how many steps are made once
there is one.
-/

namespace ScriptPack

open Effect

namespace Discovery

variable {w w' : World} {entry file : String} {entries listing : List (String × Node)}

/-! ### The Python files of a folder -/

theorem Scan.mem_pythonFiles {folder : String} : file ∈ pythonFiles folder entries ↔
    ∃ name content modified, (name, .file content modified) ∈ entries ∧
      Text.endsWith name ".py" = true ∧ file = Path.join [folder, name] := by
  rw [pythonFiles, Text.Utf16.mem_sort, List.mem_map]
  constructor
  · rintro ⟨⟨name, node⟩, hmem, rfl⟩
    obtain ⟨hmem, hkind⟩ := List.mem_filter.mp hmem
    obtain ⟨hfile, hpy⟩ := Bool.and_eq_true_iff.mp hkind
    cases node with
    | file content modified => exact ⟨name, content, modified, hmem, hpy, rfl⟩
    | folder entries => cases hfile
    | link target => cases hfile
  · rintro ⟨name, content, modified, hmem, hpy, rfl⟩
    exact ⟨(name, .file content modified), List.mem_filter.mpr ⟨hmem, hpy⟩, rfl⟩

/-- The script and then the other Python files in its folder, in order. Which these are is said by
what the folder has when it is listed, in whatever order that is done. -/
structure Covers (w : World) (entry : String) (files : List String) : Prop where
  unlisted : ∀ stop w', Files.list (Path.directory entry) w = (.error stop, w') → files = [entry]
  listed : ∀ entries w', Files.list (Path.directory entry) w = (.ok entries, w') →
    ∃ others, files = entry :: others ∧ Text.Utf16.Ascending others ∧
      (∀ file, file ∈ others ↔ file ≠ entry ∧ ∃ name content modified,
        (name, .file content modified) ∈ entries ∧ Text.endsWith name ".py" = true ∧
          file = Path.join [Path.directory entry, name]) ∧
      ∀ listing : List (String × Node), listing.Perm entries →
        others = (Scan.pythonFiles (Path.directory entry) listing).filter (· != entry)

theorem reached_zero {maxDepth : Number} (h : Number.atMost maxDepth 0 = true) :
    reached maxDepth w entry = [entry] := if_pos h

theorem reached_step {maxDepth : Number} (h : Number.atMost maxDepth 0 = false) :
    reached maxDepth w entry =
      entry :: (filesIn w (Path.directory entry)).filter (· != entry) := by
  refine (if_neg (Bool.eq_false_iff.mp h)).trans ?_
  congr 2
  funext file
  rw [List.contains_cons, List.contains_nil, Bool.or_false, bne]

theorem Covers.nodup {files : List String} (h : Covers w entry files) : files.Nodup := by
  cases hx : Files.list (Path.directory entry) w with
  | mk result w' =>
      cases result with
      | error stop =>
          rw [h.unlisted stop w' hx]
          exact List.nodup_singleton entry
      | ok entries =>
          obtain ⟨others, rfl, hasc, hmem, -⟩ := h.listed entries w' hx
          exact List.nodup_cons.mpr ⟨fun hin => ((hmem entry).mp hin).1 rfl, hasc.nodup⟩

end Discovery

namespace Discoverer

open Discovery

variable {w : World} {discoverer : Discoverer} {script entry : String}

end Discoverer

end ScriptPack

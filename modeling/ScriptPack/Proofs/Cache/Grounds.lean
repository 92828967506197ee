import ScriptPack.Proofs.Cache.Shelf
import ScriptPack.Proofs.FileSystem.Straight

/-!
The folder of a cache, whatever is in it and whether it is there or not. All that is asked of it is
that no entry of it is on the way to it, and that the draft of the document is no link.
-/

namespace ScriptPack.Cache

open Effect Node Lookup Files

/-- A process works at a path. If that leads to a folder, no entry of the folder is on the way to it,
and the draft of the document is no link. -/
structure Grounded (dir : String) (w : World) : Prop where
  running : w.Running
  normal : Path.IsNormal dir
  own : ∀ loc entries, Leads w.root dir loc entries → Holds w.root dir loc entries
  draft : ∀ loc entries, Leads w.root dir loc entries →
    ∀ target, entries.lookup (draftName w.processId) ≠ some (.link target)

/-- The entries of the folder to which a path leads; none if that is no folder. -/
def contents (dir : String) (w : World) : List (String × Node) :=
  match place? w.root true dir with
  | .ok (.found _ (.folder entries)) => entries
  | _ => []

variable {dir : String} {loc : Location} {w : World} {entries : List (String × Node)}

theorem Grounded.cases (h : Grounded dir w) :
    (∃ loc entries, Open dir loc entries w ∧
      ∀ target, entries.lookup (draftName w.processId) ≠ some (.link target)) ∨ Closed dir w := by
  by_cases hl : ∃ loc entries, Leads w.root dir loc entries
  · obtain ⟨loc, entries, hl⟩ := hl
    exact .inl ⟨loc, entries, ⟨h.running, h.normal, h.own loc entries hl⟩, h.draft loc entries hl⟩
  · exact .inr ⟨h.running, h.normal, fun loc entries hl' => hl ⟨loc, entries, hl'⟩⟩

theorem Grounded.of_open (h : Open dir loc entries w)
    (hd : ∀ target, entries.lookup (draftName w.processId) ≠ some (.link target)) :
    Grounded dir w := by
  have hleads := h.holds.leads h.running.wellFormed h.normal.endsWithSeparator
  refine ⟨h.running, h.normal, fun loc' entries' hl => ?_, fun loc' entries' hl => ?_⟩
  · obtain ⟨rfl, rfl⟩ := hleads.unique hl
    exact h.holds
  · obtain ⟨rfl, rfl⟩ := hleads.unique hl
    exact hd


/-- A folder that is where the names of its path say is not on the way to itself. -/
theorem Open.of_at? (hr : w.Running) (hd : Path.IsNormal dir)
    (hat : w.root.at? (Path.names dir) = some (.folder entries)) :
    Open dir (Path.names dir) entries w :=
  ⟨hr, hd, holds_of_at? hr.wellFormed hd hat⟩

theorem Open.contents_eq (h : Open dir loc entries w) : contents dir w = entries := by
  rw [contents, h.holds.found h.running.wellFormed true]

theorem Closed.contents_eq (h : Closed dir w) : contents dir w = [] := by
  rw [contents]
  split
  · rename_i hp
    exact absurd (.of_place? h.normal.endsWithSeparator hp) (h.closed _ _)
  · rfl

end ScriptPack.Cache

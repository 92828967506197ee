import ScriptPack.Proofs.FileSystem.Operations
import ScriptPack.Proofs.Path.Joining

/-!
What is at a path, links followed. The operations that only look are functions of it
(`Files.isFolder_eq`, `Files.list_names`), and it is a matter of the files alone (`node?_congr`). If
there is something behind a path, there is a folder at the path (`node?_beginning`).
-/

namespace ScriptPack

open Effect Node Lookup

namespace Lookup

variable {root : Node} {follow : Bool} {links : Nat} {ahead more : List String} {place : Place}
  {path : String} {jump : List String → List String → Except SystemError Place}

/-- From a root that is no folder no step leads down. -/
theorem walkWith_stuck (hroot : ¬IsFolderAt root []) (hdown : ∃ name ∈ ahead, IsDown name) :
    walkWith jump root follow [] ahead ≠ .ok place := by
  -- Dots lead from the root to the root again; the first step down ends the walk.
  induction ahead with
  | nil => exact fun _ => nomatch hdown.choose_spec.1
  | cons name rest ih =>
      by_cases hname : IsDown name
      · have hnone : root.at? [name] = none := by
          cases root with
          | folder entries => exact absurd ⟨entries, rfl⟩ hroot
          | file content modified => rfl
          | link target => rfl
        rw [walkWith_none hname hnone]
        split
        · split
          · rename_i entries hfolder
            exact absurd ⟨entries, hfolder⟩ hroot
          · nofun
          · nofun
        · nofun
      · have hrest : ∃ name ∈ rest, IsDown name := by
          obtain ⟨down, hmem, hdown⟩ := hdown
          rcases List.mem_cons.mp hmem with rfl | hmem
          · exact absurd hdown hname
          · exact ⟨down, hmem, hdown⟩
        rw [IsDown, not_and_or, not_not, not_not] at hname
        rcases hname with rfl | rfl
        · rw [walkWith_dot]
          exact ih hrest
        · rw [walkWith_dots]
          exact ih hrest

theorem isFolderAt_nil_of_walk (h : walk root follow links [] ahead = .ok place)
    (hdown : ∃ name ∈ ahead, IsDown name) : IsFolderAt root [] := by
  by_contra hroot
  cases links with
  | zero => exact walkWith_stuck hroot hdown h
  | succ links => exact walkWith_stuck hroot hdown h

/-- If names behind a path lead somewhere, the path leads to a folder. -/
theorem place?_beginning (h : place? root follow (Path.under path more) = .ok place)
    (hmore : more ≠ []) (hsteps : ∀ name ∈ more, Path.IsStep name) (hne : path ≠ "")
    (hs : Path.endsWithSeparator path = false) :
    ∃ loc entries, place? root true path = .ok (.found loc (.folder entries)) := by
  obtain ⟨hwalk, hnul⟩ := place?_eq_walk h
  obtain ⟨init, last, rfl⟩ := List.eq_nil_or_concat more |>.resolve_left hmore
  rw [List.concat_eq_append] at hsteps hwalk hnul
  have hlast := hsteps last (by simp)
  have hsteps' : steps (Path.under path (init ++ [last])) = Path.names path ++ (init ++ [last]) := by
    rw [steps, Path.names_under fun n hn => ⟨(hsteps n hn).1, (hsteps n hn).2.2.2⟩,
      Path.under_concat, Path.endsWithSeparator_child _ hlast]
    exact List.append_nil _
  rw [hsteps'] at hwalk
  -- The tree need not be well-formed: that the root is a folder follows from the step down.
  have hroot : IsFolderAt root [] :=
    isFolderAt_nil_of_walk hwalk ⟨last, by simp, hlast.2.1, hlast.2.2.1⟩
  have hhere : IsFolderAt root ([] : List String).reverse := hroot
  obtain ⟨loc, entries, hfolder⟩ := walk_beginning (by simp) hroot hhere hwalk
  have hnul' : '\x00' ∉ path.toList := fun hc => hnul <| by
    rw [Path.under_eq path (by simp), String.toList_append, String.toList_append]
    exact List.mem_append_left _ (List.mem_append_left _ hc)
  exact ⟨loc, entries, Leads.place?_eq ⟨hfolder, hnul'⟩ hne hs⟩

end Lookup

/-- Worlds with the same files, seen from the same folder. -/
structure World.SameFiles (w w' : World) : Prop where
  root : w'.root = w.root
  workingDirectory : w'.workingDirectory = w.workingDirectory

namespace Files

variable {w w' : World} {path : String} {more : List String} {node : Node}

/-- What is at a path. -/
def node? (w : World) (path : String) : Option Node :=
  match place? w.root true (absolute w path) with
  | .ok (.found _ node) => some node
  | _ => none

theorem node?_congr (h : w.SameFiles w') : node? w' = node? w := by
  funext path
  rw [node?, node?, absolute, absolute, h.root, h.workingDirectory]

theorem node?_eq_some : node? w path = some node ↔
    ∃ loc, place? w.root true (absolute w path) = .ok (.found loc node) := by
  rw [node?]
  split
  · rename_i loc found hplace
    rw [hplace]
    constructor
    · intro h
      exact ⟨loc, by rw [Option.some.inj h]⟩
    · rintro ⟨_, h⟩
      cases h
      rfl
  · rename_i hnot
    exact ⟨nofun, fun ⟨loc, h⟩ => absurd h (hnot loc node)⟩

/-- Asking for what is at a path changes nothing, whether there is something or not. -/
theorem attempt_require (path : String) (w : World) :
    ∃ result, attempt (require true path) w = (.ok result, w) ∧
      result.toOption.map Prod.snd = node? w path := by
  rw [node?]
  cases hplace : place? w.root true (absolute w path) with
  | error error => exact ⟨_, attempt_failed (require_error hplace), rfl⟩
  | ok place =>
      cases place with
      | found loc node => exact ⟨_, attempt_ok (require_found hplace), rfl⟩
      | free loc => exact ⟨_, attempt_failed (require_free hplace), rfl⟩

theorem isFolder_eq (path : String) (w : World) :
    isFolder path w = (.ok ((node? w path).any Node.isFolder), w) := by
  obtain ⟨result, hx, hnode⟩ := attempt_require path w
  rw [isFolder, bind_ok hx, ← hnode]
  cases result <;> rfl

theorem isFile_eq (path : String) (w : World) :
    isFile path w = (.ok ((node? w path).any Node.isFile), w) := by
  obtain ⟨result, hx, hnode⟩ := attempt_require path w
  rw [isFile, bind_ok hx, ← hnode]
  cases result <;> rfl

/-- The names in a folder, or none if it cannot be listed. -/
theorem list_names (path : String) (w : World) :
    ((list path w).1.toOption.getD []).map Prod.fst =
      ((node? w path).elim [] Node.entries).map Prod.fst := by
  rw [node?]
  cases hplace : place? w.root true (absolute w path) with
  | error error => rw [list, bind_error (require_error hplace)]; rfl
  | ok place =>
      cases place with
      | free loc => rw [list, bind_error (require_free hplace)]; rfl
      | found loc node =>
          rw [list, bind_ok (require_found hplace)]
          cases node <;> rfl

theorem any_isFolder {node : Option Node} :
    node.any Node.isFolder = true ↔ ∃ entries, node = some (.folder entries) := by
  rw [Option.any_eq_true]
  constructor
  · rintro ⟨found, rfl, hfolder⟩
    cases found with
    | folder entries => exact ⟨entries, rfl⟩
    | file content modified => cases hfolder
    | link target => cases hfolder
  · rintro ⟨entries, rfl⟩
    exact ⟨_, rfl, rfl⟩

theorem any_isFile {node : Option Node} :
    node.any Node.isFile = true ↔ ∃ content modified, node = some (.file content modified) := by
  rw [Option.any_eq_true]
  constructor
  · rintro ⟨found, rfl, hfile⟩
    cases found with
    | folder entries => cases hfile
    | file content modified => exact ⟨content, modified, rfl⟩
    | link target => cases hfile
  · rintro ⟨content, modified, rfl⟩
    exact ⟨_, rfl, rfl⟩

/-! ### Folders on the way -/

theorem absolute_names (hne : path ≠ "") (more : List String) :
    absolute w (Path.under path more) = Path.under (absolute w path) more := by
  induction more generalizing path with
  | nil => rfl
  | cons name more ih =>
      exact (ih (by simp)).trans (congrArg (Path.under · more) (absolute_behind hne name))

theorem endsWithSeparator_absolute (hne : path ≠ "") :
    Path.endsWithSeparator (absolute w path) = Path.endsWithSeparator path := by
  rw [absolute]
  split
  · rfl
  · exact Path.endsWithSeparator_append_of_ne _ hne

/-- If there is something behind a path, then there is a folder at the path. -/
theorem node?_beginning (h : node? w (Path.under path more) = some node) (hmore : more ≠ [])
    (hsteps : ∀ name ∈ more, Path.IsStep name) (hne : path ≠ "")
    (hs : Path.endsWithSeparator path = false) : ∃ entries, node? w path = some (.folder entries) := by
  obtain ⟨loc, hplace⟩ := node?_eq_some.mp h
  rw [absolute_names hne] at hplace
  obtain ⟨loc', entries, hfolder⟩ := place?_beginning hplace hmore hsteps (absolute_ne_empty hne)
    ((endsWithSeparator_absolute hne).trans hs)
  exact ⟨entries, node?_eq_some.mpr ⟨loc', hfolder⟩⟩

end Files

end ScriptPack

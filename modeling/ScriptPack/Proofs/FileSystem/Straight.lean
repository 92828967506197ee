import ScriptPack.Proofs.FileSystem.Confinement

/-!
Straight paths: normal paths with no link on the way. Such a path leads to the location of its own
names and nowhere else, whatever else there is.
-/

namespace ScriptPack

open Node Lookup Effect

/-- No link is at a location or above it. -/
def Node.Straight (root : Node) (loc : Location) : Prop :=
  ∀ other, other <+: loc → ∀ target, root.at? other ≠ some (.link target)

namespace Lookup

variable {root node : Node} {follow : Bool} {here ahead : List String} {place : Place}
  {name path : String} {loc : Location} {entries : List (String × Node)}
  {jump : List String → List String → Except SystemError Place}

/-- No link is met along names from a folder. -/
def Unlinked (root : Node) (here ahead : List String) : Prop :=
  ∀ next, next ≠ [] → next <+: ahead → ∀ target, root.at? (here.reverse ++ next) ≠ some (.link target)

theorem Unlinked.tail (h : Unlinked root here (name :: ahead)) :
    Unlinked root (name :: here) ahead := by
  intro next _ hp target hat
  refine h (name :: next) (by simp) ?_ target ?_
  · exact List.cons_prefix_cons.mpr ⟨rfl, hp⟩
  · simpa using hat

theorem Unlinked.head (h : Unlinked root here (name :: ahead)) (target : String) :
    root.at? (name :: here).reverse ≠ some (.link target) := by
  have hfirst := h [name] (by simp) (by simp) target
  simpa using hfirst

/-- Without links a walk can end only where its names lead. -/
theorem location_of_walkWith (hd : ∀ n ∈ ahead, IsDown n) (hu : Unlinked root here ahead)
    (h : walkWith jump root follow here ahead = .ok place) :
    place.location = here.reverse ++ ahead := by
  induction ahead generalizing here with
  | nil =>
      rw [walkWith] at h
      split at h
      · cases h
        simp [Place.location]
      · cases h
  | cons name rest ih =>
      have hname := hd name List.mem_cons_self
      have hloc : (name :: here).reverse ++ rest = here.reverse ++ name :: rest := by simp
      cases hat : root.at? (name :: here).reverse with
      | none =>
          rw [walkWith_none hname hat] at h
          split at h
          · rename_i hempty
            obtain rfl : rest = [] := by simpa using hempty
            split at h
            · cases h
              simp [Place.location]
            · cases h
            · cases h
          · cases h
      | some node =>
          cases node with
          | link target => exact absurd hat (hu.head target)
          | file content modified =>
              rw [walkWith_file hname hat] at h
              split at h
              · rename_i hempty
                obtain rfl : rest = [] := by simpa using hempty
                cases h
                simp [Place.location]
              · cases h
          | folder entries =>
              rw [walkWith_folder hname hat] at h
              rw [← hloc]
              exact ih (fun n hn => hd n (List.mem_cons_of_mem _ hn)) hu.tail h

/-- A walk along the names of folders goes on from the last one. -/
theorem walkWith_folders (hd : ∀ n ∈ ahead, IsDown n)
    (hat : root.at? (here.reverse ++ ahead) = some (.folder entries)) (rest : List String) :
    walkWith jump root follow here (ahead ++ rest) =
      walkWith jump root follow (ahead.reverse ++ here) rest := by
  induction ahead generalizing here with
  | nil => rfl
  | cons name tail ih =>
      have hloc : here.reverse ++ name :: tail = (name :: here).reverse ++ tail := by simp
      obtain ⟨entries', hfirst⟩ : ∃ entries', root.at? (name :: here).reverse =
          some (.folder entries') := by
        rw [hloc] at hat
        cases tail with
        | nil => exact ⟨entries, by simpa using hat⟩
        | cons next tail => exact exists_folder_of_at?_append hat
      rw [List.cons_append, walkWith_folder (hd name List.mem_cons_self) hfirst,
        ih (fun n hn => hd n (List.mem_cons_of_mem _ hn)) (hloc ▸ hat)]
      simp

theorem canonicalWith_unlinked {jump : Option (List String → List String → List String)}
    (hs : ∀ n ∈ here.reverse ++ ahead, Path.IsStep n) (hu : Unlinked root here ahead) :
    canonicalWith jump root here ahead = here.reverse ++ ahead := by
  induction ahead generalizing here with
  | nil => rw [canonicalWith, List.append_nil]
  | cons name rest ih =>
      have hname := hs name (by simp)
      have hloc : (name :: here).reverse ++ rest = here.reverse ++ name :: rest := by simp
      have hrest := @ih (name :: here) (hloc ▸ hs) hu.tail
      cases hat : root.at? (name :: here).reverse with
      | none =>
          simp only [canonicalWith, beq_iff_eq, hname.2.1, hname.2.2.1, if_false, hat]
          exact Path.normalNames_of_steps true hs
      | some node =>
          cases node with
          | link target => exact absurd hat (hu.head target)
          | file content modified =>
              simp only [canonicalWith, beq_iff_eq, hname.2.1, hname.2.2.1, if_false, hat]
              rw [hrest, hloc]
          | folder entries =>
              simp only [canonicalWith, beq_iff_eq, hname.2.1, hname.2.2.1, if_false, hat]
              rw [hrest, hloc]

end Lookup

namespace Node.Straight

variable {root root' : Node} {path name : String} {loc : Location} {place : Place} {follow : Bool}
  {entries : List (String × Node)}

/-- There are only folders above a folder. -/
theorem of_folder (h : IsFolderAt root loc) : Straight root loc := by
  rintro other ⟨tail, rfl⟩ target hat
  obtain ⟨entries, hfolder⟩ := h
  cases tail with
  | nil =>
      rw [List.append_nil, hat] at hfolder
      cases hfolder
  | cons name tail =>
      obtain ⟨above, habove⟩ := exists_folder_of_at?_append hfolder
      cases hat.symm.trans habove

theorem isDown_of_normal (hd : Path.IsNormal path) : ∀ n ∈ Path.names path, IsDown n := fun _ hn =>
  ⟨(hd.isStep hn).2.1, (hd.isStep hn).2.2.1⟩

theorem steps_of_normal (hd : Path.IsNormal path) : steps path = Path.names path := by
  rw [steps, hd.endsWithSeparator]
  simp

theorem unlinked (h : Straight root loc) : Unlinked root [] loc :=
  fun next _ hp target => h next hp target

/-- A straight path leads to the location of its names. -/
theorem location (h : Straight root (Path.names path)) (hd : Path.IsNormal path)
    (hp : place? root follow path = .ok place) : place.location = Path.names path := by
  have hwalk := (place?_eq_walk hp).1
  rw [steps_of_normal hd] at hwalk
  exact location_of_walkWith (isDown_of_normal hd) h.unlinked hwalk

theorem canonical (h : Straight root (Path.names path)) (hd : Path.IsNormal path) :
    canonicalFrom root linkLimit [] (Path.names path) = Path.names path :=
  canonicalWith_unlinked (fun _ hn => hd.isStep hn) h.unlinked

end Node.Straight

namespace Lookup

variable {root : Node} {path : String} {entries : List (String × Node)}

theorem not_mem_of_at? (hw : root.WellFormed) (hd : Path.IsNormal path)
    (hat : root.at? (Path.names path) = some (.folder entries)) : '\x00' ∉ path.toList := by
  intro hc
  rw [← hd.under_names] at hc
  rcases Path.mem_under hc with hc | hc | ⟨n, hn, hc⟩
  · cases hc
  · cases hc
  · exact (hw.isName_of_mem hat hn).2.2.2.2 hc

/-- A folder at the location of the names of a normal path is held by that path. -/
theorem holds_of_at? (hw : root.WellFormed) (hd : Path.IsNormal path)
    (hat : root.at? (Path.names path) = some (.folder entries)) :
    Holds root path (Path.names path) entries := by
  refine ⟨hat, place?_of_walk hd.ne_empty (not_mem_of_at? hw hd hat) ?_⟩
  have hdown := Node.Straight.isDown_of_normal hd
  obtain ⟨init, name, hnames⟩ := List.eq_nil_or_concat _ |>.resolve_left hd.names_ne_nil
  rw [List.concat_eq_append] at hnames
  rw [Node.Straight.steps_of_normal hd]
  rw [hnames] at hat hdown ⊢
  obtain ⟨above, habove⟩ := exists_folder_of_at?_append hat
  have hremove : (root.remove (init ++ [name])).at? init =
      some (.folder (eraseEntry name above)) := by
    rw [remove_child hw habove, at?_put_of_some hw habove]
  have hnone : (root.remove (init ++ [name])).at? (name :: init.reverse).reverse = none := by
    rw [List.reverse_cons, List.reverse_reverse]
    exact at?_remove_self hw (by simp)
  have hinit : ∀ n ∈ init, IsDown n := fun n hn => hdown n (by simp [hn])
  have hfolders := @walkWith_folders (root.remove (init ++ [name])) false [] init (eraseEntry name above)
    (Lookup.walk (root.remove (init ++ [name])) false 39) hinit (by simpa using hremove) [name]
  rw [linkLimit, walk, hfolders,
    List.append_nil, walkWith_none (hdown name (by simp)) hnone, List.reverse_reverse, hremove]
  simp

end Lookup

end ScriptPack

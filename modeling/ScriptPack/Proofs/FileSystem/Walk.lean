import ScriptPack.FileSystem.Lookup
import ScriptPack.Proofs.FileSystem.Tree
import ScriptPack.Proofs.Path

/-!
Finding what a path leads to. Only folders and links steer a walk, so that a path leads to the same
location as long as these stay what they are (`place?_carry`). A walk along a longer path goes on
from where the walk along its beginning ends (`walk_append`); from this comes what a name behind the
path of a folder leads to (`Leads.free_child`, `Leads.found_child`).
-/

namespace ScriptPack

open Node Lookup

def Place.location : Place → Location
  | .found loc _ => loc
  | .free loc => loc

/-- Every folder of one tree is a folder in the other one, every link the same link. -/
structure Node.Keeps (root root' : Node) : Prop where
  folder : ∀ loc entries, root.at? loc = some (.folder entries) →
    ∃ entries', root'.at? loc = some (.folder entries')
  link : ∀ loc target, root.at? loc = some (.link target) → root'.at? loc = some (.link target)

namespace Node.Keeps

variable {root root' root'' new : Node} {loc : Location}

theorem refl (root : Node) : Keeps root root :=
  ⟨fun _ entries h => ⟨entries, h⟩, fun _ _ h => h⟩

theorem trans (h : Keeps root root') (h' : Keeps root' root'') : Keeps root root'' := by
  refine ⟨fun loc entries he => ?_, fun loc target he => h'.link _ _ (h.link _ _ he)⟩
  obtain ⟨entries', he'⟩ := h.folder loc entries he
  exact h'.folder loc entries' he'

/-- Trees that differ only in the entries of folders and in files steer walks alike. -/
theorem of_bare (h : ∀ loc node, root.at? loc = some node → (∀ c m, node ≠ .file c m) →
    (root'.at? loc).map bare = (root.at? loc).map bare) : Keeps root root' := by
  constructor
  · intro loc entries he
    have hb := h loc _ he nofun
    rw [he] at hb
    cases hr : root'.at? loc with
    | none => simp [hr] at hb
    | some node =>
        cases node with
        | folder entries' => exact ⟨entries', rfl⟩
        | file content modified => simp [hr, bare] at hb
        | link target => simp [hr, bare] at hb
  · intro loc target he
    have hb := h loc _ he nofun
    rw [he] at hb
    cases hr : root'.at? loc with
    | none => simp [hr] at hb
    | some node =>
        cases node with
        | folder entries' => simp [hr, bare] at hb
        | file content modified => simp [hr, bare] at hb
        | link target' =>
            rw [hr] at hb
            simpa [bare] using hb

theorem put_of_none (h : root.WellFormed) (hn : root.at? loc = none) :
    Keeps root (put loc new root) := by
  refine of_bare fun loc' node hl _ => at?_alter_bare h ?_
  rintro ⟨tail, rfl⟩
  rw [at?_append, hn] at hl
  cases hl

theorem remove (h : root.WellFormed) (hl : loc ≠ []) : Keeps (root.remove loc) root := by
  refine of_bare fun loc' node hn _ => (at?_alter_bare h ?_).symm
  rintro ⟨tail, rfl⟩
  rw [at?_append, at?_remove_self h hl] at hn
  cases hn

/-- What is done to a file does not steer a walk elsewhere. -/
theorem alter_file {content : Bytes} {modified : Stamp} (h : root.WellFormed)
    (hf : root.at? loc = some (.file content modified)) (f : Option Node → Option Node) :
    Keeps root (alter f loc root) := by
  refine of_bare fun loc' node hn hnode => at?_alter_bare h ?_
  rintro ⟨tail, rfl⟩
  rw [at?_append_of_eq hf] at hn
  cases tail with
  | nil =>
      cases hn
      exact hnode _ _ rfl
  | cons name tail => cases hn

theorem remove_file {content : Bytes} {modified : Stamp} (h : root.WellFormed)
    (hf : root.at? loc = some (.file content modified)) : Keeps root (root.remove loc) :=
  alter_file h hf _

theorem put_file {content : Bytes} {modified : Stamp} (h : root.WellFormed)
    (hf : root.at? loc = some (.file content modified)) (new : Node) : Keeps root (put loc new root) :=
  alter_file h hf _

/-- The same may be removed from both trees. -/
theorem remove_both (hk : Keeps root root') (h : root.WellFormed) (h' : root'.WellFormed)
    (hl : loc ≠ []) : Keeps (root.remove loc) (root'.remove loc) := by
  have hout {loc' : Location} {node : Node} (hn : (root.remove loc).at? loc' = some node) :
      ¬loc <+: loc' := by
    rintro ⟨tail, rfl⟩
    rw [at?_append, at?_remove_self h hl] at hn
    cases hn
  have hbare {loc' : Location} {node : Node} (hn : (root.remove loc).at? loc' = some node) :
      ((root'.remove loc).at? loc').map bare = (root'.at? loc').map bare :=
    at?_alter_bare h' (hout hn)
  have hback := Keeps.remove h hl
  constructor
  · intro loc' entries he
    obtain ⟨entries₁, he₁⟩ := hback.folder _ _ he
    obtain ⟨entries₂, he₂⟩ := hk.folder _ _ he₁
    have hb := hbare he
    rw [he₂] at hb
    cases hr : (root'.remove loc).at? loc' with
    | none => simp [hr] at hb
    | some node =>
        cases node with
        | folder entries₃ => exact ⟨entries₃, rfl⟩
        | file content modified => simp [hr, bare] at hb
        | link target => simp [hr, bare] at hb
  · intro loc' target he
    have hb := hbare he
    rw [hk.link _ _ (hback.link _ _ he)] at hb
    cases hr : (root'.remove loc).at? loc' with
    | none => simp [hr] at hb
    | some node =>
        cases node with
        | folder entries₃ => simp [hr, bare] at hb
        | file content modified => simp [hr, bare] at hb
        | link target' =>
            rw [hr] at hb
            simpa [bare] using hb

end Node.Keeps

namespace Lookup

variable {root root' : Node} {follow follow' : Bool} {links : Nat} {here ahead rest : List String}
  {name path : String} {loc : Location} {place : Place} {node : Node}
  {entries entries' : List (String × Node)}
  {jump jump' : List String → List String → Except SystemError Place}

/-- A result is the given place again, with what another tree has there. -/
def Carries (root' : Node) (follow' : Bool) (place : Place) (result : Except SystemError Place) :
    Prop :=
  (∀ loc, place = .free loc → root'.at? loc = none → result = .ok (.free loc)) ∧
    ∀ node, root'.at? place.location = some node →
      (follow' = true → ∀ target, node ≠ .link target) →
      result = .ok (.found place.location node)

/-- Whether a step leads down, and not to the same folder or up. -/
def IsDown (name : String) : Prop := name ≠ "." ∧ name ≠ ".."

theorem walkWith_dot (jump) (root : Node) (follow : Bool) (here rest : List String) :
    walkWith jump root follow here ("." :: rest) = walkWith jump root follow here rest := by
  simp [walkWith]

theorem walkWith_dots (jump) (root : Node) (follow : Bool) (here rest : List String) :
    walkWith jump root follow here (".." :: rest) = walkWith jump root follow here.tail rest := by
  simp [walkWith]

theorem walkWith_none (hd : IsDown name) (hn : root.at? (name :: here).reverse = none) :
    walkWith jump root follow here (name :: rest) =
      if rest.isEmpty then
        match root.at? here.reverse with
        | some (.folder _) => .ok (.free (name :: here).reverse)
        | some _ => .error .notDirectory
        | none => .error .noEntry
      else .error .noEntry := by
  cases hp : root.at? here.reverse with
  | none => simp only [walkWith, beq_iff_eq, hd.1, hd.2, if_false, hn, hp]
  | some parent => cases parent <;> simp only [walkWith, beq_iff_eq, hd.1, hd.2, if_false, hn, hp]

theorem walkWith_folder (hd : IsDown name)
    (hn : root.at? (name :: here).reverse = some (.folder entries)) :
    walkWith jump root follow here (name :: rest) =
      walkWith jump root follow (name :: here) rest := by
  simp only [walkWith, beq_iff_eq, hd.1, hd.2, if_false, hn]

theorem walkWith_file {content : Bytes} {modified : Stamp} (hd : IsDown name)
    (hn : root.at? (name :: here).reverse = some (.file content modified)) :
    walkWith jump root follow here (name :: rest) =
      if rest.isEmpty then .ok (.found (name :: here).reverse (.file content modified))
      else .error .notDirectory := by
  simp only [walkWith, beq_iff_eq, hd.1, hd.2, if_false, hn]

theorem walkWith_link {target : String} (hd : IsDown name)
    (hn : root.at? (name :: here).reverse = some (.link target)) :
    walkWith jump root follow here (name :: rest) =
      if rest.isEmpty && !follow then .ok (.found (name :: here).reverse (.link target))
      else jump (if Path.isAbsolute target then [] else here) (steps target ++ rest) := by
  simp only [walkWith, beq_iff_eq, hd.1, hd.2, if_false, hn]

/-- The last step leads to the node there, unless that is a link to be followed. -/
theorem walkWith_last (hd : IsDown name) (hn : root.at? (name :: here).reverse = some node)
    (hl : follow = true → ∀ target, node ≠ .link target) :
    walkWith jump root follow here [name] = .ok (.found (name :: here).reverse node) := by
  cases node with
  | folder entries =>
      rw [walkWith_folder hd hn]
      simp only [walkWith, hn]
  | file content modified =>
      rw [walkWith_file hd hn]
      rfl
  | link target =>
      rw [walkWith_link hd hn]
      cases follow with
      | true => exact absurd rfl (hl rfl target)
      | false => rfl

theorem walkWith_carry (hk : Keeps root root') (hf : follow = true → follow' = true)
    (hj : ∀ here ahead place, jump here ahead = .ok place →
      Carries root' follow' place (jump' here ahead))
    (h : walkWith jump root follow here ahead = .ok place) :
    Carries root' follow' place (walkWith jump' root' follow' here ahead) := by
  induction ahead generalizing here with
  | nil =>
      simp only [walkWith] at h
      cases hn : root.at? here.reverse with
      | none => simp [hn] at h
      | some node =>
          rw [hn] at h
          cases h
          refine ⟨nofun, fun node' hn' _ => ?_⟩
          rw [walkWith, show root'.at? here.reverse = some node' from hn']
          rfl
  | cons name rest ih =>
      by_cases hdot : name = "."
      · subst hdot
        rw [walkWith_dot] at h ⊢
        exact ih h
      · by_cases hdots : name = ".."
        · subst hdots
          rw [walkWith_dots] at h ⊢
          exact ih h
        · have hd : IsDown name := ⟨hdot, hdots⟩
          cases hn : root.at? (name :: here).reverse with
          | none =>
              rw [walkWith_none hd hn] at h
              cases rest with
              | cons next rest => cases h
              | nil =>
                  cases hp : root.at? here.reverse with
                  | none => simp [hp] at h
                  | some parent =>
                      cases parent with
                      | file content modified => simp [hp] at h
                      | link target => simp [hp] at h
                      | folder entries =>
                          rw [hp] at h
                          cases h
                          obtain ⟨entries', hp'⟩ := hk.folder _ _ hp
                          refine ⟨fun loc hloc hn' => ?_, fun node hn' hl => ?_⟩
                          · cases hloc
                            rw [walkWith_none hd hn', hp']
                            rfl
                          · exact walkWith_last hd hn' hl
          | some node =>
              cases node with
              | folder entries =>
                  obtain ⟨entries', hn'⟩ := hk.folder _ _ hn
                  rw [walkWith_folder hd hn] at h
                  rw [walkWith_folder hd hn']
                  exact ih h
              | file content modified =>
                  rw [walkWith_file hd hn] at h
                  cases rest with
                  | cons next rest => cases h
                  | nil =>
                      cases h
                      exact ⟨nofun, fun node hn' hl => walkWith_last hd hn' hl⟩
              | link target =>
                  have hn' := hk.link _ _ hn
                  rw [walkWith_link hd hn] at h
                  split at h
                  · rename_i hlast
                    rw [Bool.and_eq_true, List.isEmpty_iff] at hlast
                    obtain ⟨rfl, -⟩ := hlast
                    cases h
                    exact ⟨nofun, fun node hn' hl => walkWith_last hd hn' hl⟩
                  · rename_i hlast
                    have hlast' : ¬(rest.isEmpty && !follow') = true := by
                      cases follow <;> cases follow' <;> simp_all
                    rw [walkWith_link hd hn', if_neg hlast']
                    exact hj _ _ _ h

theorem walk_carry (hk : Keeps root root') (hf : follow = true → follow' = true)
    (h : walk root follow links here ahead = .ok place) :
    Carries root' follow' place (walk root' follow' links here ahead) := by
  induction links generalizing here ahead place with
  | zero => exact walkWith_carry hk hf (fun _ _ _ hj => by cases hj) h
  | succ links ih => exact walkWith_carry hk hf (fun _ _ _ hj => ih hj) h

/-- A path that leads somewhere leads there in every tree with the same folders and links. -/
theorem place?_carry (hk : Keeps root root') (hf : follow = true → follow' = true)
    (h : place? root follow path = .ok place) :
    Carries root' follow' place (place? root' follow' path) := by
  by_cases he : path.isEmpty = true
  · simp [place?, he] at h
  · by_cases hnul : path.toList.contains '\x00' = true
    · rw [place?, if_neg he, if_pos hnul] at h
      cases h
    · rw [place?, if_neg he, if_neg hnul] at h ⊢
      exact walk_carry hk hf h

theorem place?_carry_found (hk : Keeps root root') (hf : follow = true → follow' = true)
    (h : place? root follow path = .ok place) (hn : root'.at? place.location = some node)
    (hl : follow' = true → ∀ target, node ≠ .link target) :
    place? root' follow' path = .ok (.found place.location node) :=
  (place?_carry hk hf h).2 node hn hl

/-! ### Longer paths -/

theorem walkWith_append (links : Nat)
    (jumps : Bool → List String → List String → Except SystemError Place)
    (hw : ∀ follow, walk root follow links = walkWith (jumps follow) root follow)
    (hj : ∀ here ahead, jumps true here ahead = .ok (.found loc (.folder entries)) →
      ∃ links', ∀ follow tail, tail ≠ [] →
        jumps follow here (ahead ++ tail) = walk root follow links' loc.reverse tail)
    (h : walkWith (jumps true) root true here ahead = .ok (.found loc (.folder entries))) :
    ∃ links', ∀ follow tail, tail ≠ [] →
      walkWith (jumps follow) root follow here (ahead ++ tail) =
        walk root follow links' loc.reverse tail := by
  induction ahead generalizing here with
  | nil =>
      rw [walkWith] at h
      cases hn : root.at? here.reverse with
      | none => simp [hn] at h
      | some node =>
          rw [hn] at h
          cases h
          refine ⟨links, fun follow tail _ => ?_⟩
          rw [List.nil_append, List.reverse_reverse, hw]
  | cons name rest ih =>
      by_cases hdot : name = "."
      · subst hdot
        simp only [List.cons_append, walkWith_dot] at h ⊢
        exact ih h
      · by_cases hdots : name = ".."
        · subst hdots
          simp only [List.cons_append, walkWith_dots] at h ⊢
          exact ih h
        · have hd : IsDown name := ⟨hdot, hdots⟩
          cases hn : root.at? (name :: here).reverse with
          | none =>
              rw [walkWith_none hd hn] at h
              split at h
              · split at h <;> cases h
              · cases h
          | some node =>
              cases node with
              | folder entries' =>
                  rw [walkWith_folder hd hn] at h
                  simp only [List.cons_append, walkWith_folder hd hn]
                  exact ih h
              | file content modified =>
                  rw [walkWith_file hd hn] at h
                  split at h <;> cases h
              | link target =>
                  rw [walkWith_link hd hn, if_neg (by simp)] at h
                  obtain ⟨links', hl⟩ := hj _ _ h
                  refine ⟨links', fun follow tail ht => ?_⟩
                  rw [List.cons_append, walkWith_link hd hn, if_neg (by simp [ht]),
                    ← List.append_assoc]
                  exact hl follow tail ht

/-- A walk along a longer path goes on from the folder to which its beginning leads. -/
theorem walk_append (h : walk root true links here ahead = .ok (.found loc (.folder entries))) :
    ∃ links', ∀ follow tail, tail ≠ [] →
      walk root follow links here (ahead ++ tail) = walk root follow links' loc.reverse tail := by
  induction links generalizing here ahead with
  | zero =>
      exact walkWith_append 0 (fun _ _ _ => .error .tooManyLinks) (fun _ => rfl)
        (fun _ _ hj => by cases hj) h
  | succ links ih =>
      exact walkWith_append (links + 1) (fun follow => walk root follow links) (fun _ => rfl)
        (fun _ _ hj => ih hj) h

/-- There is a folder at a location. -/
def IsFolderAt (root : Node) (loc : Location) : Prop :=
  ∃ entries, root.at? loc = some (.folder entries)

theorem IsFolderAt.tail (h : IsFolderAt root here.reverse) : IsFolderAt root here.tail.reverse := by
  obtain ⟨entries, h⟩ := h
  cases here with
  | nil => exact ⟨entries, h⟩
  | cons name here =>
      rw [List.reverse_cons] at h
      exact exists_folder_of_at?_append h

theorem IsFolderAt.remove (h : IsFolderAt root []) (hl : loc ≠ []) :
    IsFolderAt (root.remove loc) [] := by
  obtain ⟨entries, h⟩ := h
  rw [at?_nil, Option.some.injEq] at h
  have hb : (root.remove loc).bare = root.bare := bare_alter hl
  rw [h] at hb
  cases hr : (Node.folder entries).remove loc with
  | folder entries' => exact ⟨entries', by rw [h, hr]; rfl⟩
  | file content modified =>
      rw [hr] at hb
      cases hb
  | link target =>
      rw [hr] at hb
      cases hb

theorem walkWith_beginning {tail : List String} (ht : tail ≠ []) (hroot : IsFolderAt root [])
    (hh : IsFolderAt root here.reverse)
    (hj : ∀ here ahead, IsFolderAt root here.reverse → jump here (ahead ++ tail) = .ok place →
      ∃ loc entries, jump' here ahead = .ok (.found loc (.folder entries)))
    (h : walkWith jump root follow here (ahead ++ tail) = .ok place) :
    ∃ loc entries, walkWith jump' root true here ahead = .ok (.found loc (.folder entries)) := by
  induction ahead generalizing here with
  | nil =>
      obtain ⟨entries, hp⟩ := hh
      exact ⟨here.reverse, entries, by simp only [walkWith, hp]⟩
  | cons next ahead ih =>
      by_cases hdot : next = "."
      · subst hdot
        simp only [List.cons_append, walkWith_dot] at h ⊢
        exact ih hh h
      · by_cases hdots : next = ".."
        · subst hdots
          simp only [List.cons_append, walkWith_dots] at h ⊢
          exact ih hh.tail h
        · have hd : IsDown next := ⟨hdot, hdots⟩
          cases hn : root.at? (next :: here).reverse with
          | none =>
              rw [List.cons_append, walkWith_none hd hn, if_neg (by simp [ht])] at h
              cases h
          | some node =>
              cases node with
              | folder entries =>
                  rw [List.cons_append, walkWith_folder hd hn] at h
                  rw [walkWith_folder hd hn]
                  exact ih ⟨entries, hn⟩ h
              | file content modified =>
                  rw [List.cons_append, walkWith_file hd hn, if_neg (by simp [ht])] at h
                  cases h
              | link target =>
                  rw [List.cons_append, walkWith_link hd hn, if_neg (by simp [ht]),
                    ← List.append_assoc] at h
                  rw [walkWith_link hd hn, if_neg (by simp)]
                  refine hj _ _ ?_ h
                  split
                  · exact hroot
                  · exact hh

/-- Where a path leads somewhere, its beginning leads to a folder. -/
theorem walk_beginning {tail : List String} (ht : tail ≠ []) (hroot : IsFolderAt root [])
    (hh : IsFolderAt root here.reverse)
    (h : walk root follow links here (ahead ++ tail) = .ok place) :
    ∃ loc entries, walk root true links here ahead = .ok (.found loc (.folder entries)) := by
  induction links generalizing here ahead with
  | zero => exact walkWith_beginning ht hroot hh (fun _ _ _ hj => by cases hj) h
  | succ links ih => exact walkWith_beginning ht hroot hh (fun _ _ hh' hj => ih hh' hj) h

/-- Above a folder everything is a folder, up to the root. -/
theorem isFolderAt_nil (h : root.at? loc = some (.folder entries)) : IsFolderAt root [] := by
  cases loc with
  | nil => exact ⟨entries, h⟩
  | cons name loc =>
      rw [← List.nil_append (name :: loc)] at h
      exact exists_folder_of_at?_append h

theorem walkWith_undots
    (hj : ∀ here ahead ahead', Path.Undots ahead ahead' →
      jump here ahead = .ok (.found loc (.folder entries)) →
      jump' here ahead' = .ok (.found loc (.folder entries)))
    {ahead' : List String} (hu : Path.Undots ahead ahead')
    (h : walkWith jump root true here ahead = .ok (.found loc (.folder entries))) :
    walkWith jump' root true here ahead' = .ok (.found loc (.folder entries)) := by
  induction hu generalizing here with
  | nil => exact h
  | drop hu ih => exact ih (walkWith_dot jump root true here _ ▸ h)
  | @keep name all kept hu ih =>
      by_cases hdot : name = "."
      · subst hdot
        rw [walkWith_dot] at h ⊢
        exact ih h
      · by_cases hdots : name = ".."
        · subst hdots
          rw [walkWith_dots] at h ⊢
          exact ih h
        · have hd : IsDown name := ⟨hdot, hdots⟩
          cases hn : root.at? (name :: here).reverse with
          | none =>
              rw [walkWith_none hd hn] at h
              split at h
              · split at h <;> cases h
              · cases h
          | some node =>
              cases node with
              | folder entries' =>
                  rw [walkWith_folder hd hn] at h ⊢
                  exact ih h
              | file content modified =>
                  rw [walkWith_file hd hn] at h
                  split at h <;> cases h
              | link target =>
                  rw [walkWith_link hd hn, if_neg (by simp)] at h ⊢
                  exact hj _ _ _ (hu.append_left _) h

/-- Dots on the way to a folder do not matter. -/
theorem walk_undots {ahead' : List String} (hu : Path.Undots ahead ahead')
    (h : walk root true links here ahead = .ok (.found loc (.folder entries))) :
    walk root true links here ahead' = .ok (.found loc (.folder entries)) := by
  induction links generalizing here ahead ahead' with
  | zero => exact walkWith_undots (fun _ _ _ _ hj => by cases hj) hu h
  | succ links ih =>
      have hj : ∀ here ahead ahead', Path.Undots ahead ahead' →
          walk root true links here ahead = .ok (.found loc (.folder entries)) →
          walk root true links here ahead' = .ok (.found loc (.folder entries)) :=
        fun _ _ _ hu' hw => ih hu' hw
      exact walkWith_undots hj hu h

/-- A place agrees with a tree: the node is there, or there is a folder with a free name. -/
def Fits (root : Node) : Place → Prop
  | .found loc node => root.at? loc = some node
  | .free loc => ∃ init name entries, loc = init ++ [name] ∧
      root.at? init = some (.folder entries) ∧ entries.lookup name = none

theorem walkWith_fits (hj : ∀ here ahead, jump here ahead = .ok place → Fits root place)
    (h : walkWith jump root follow here ahead = .ok place) : Fits root place := by
  induction ahead generalizing here with
  | nil =>
      rw [walkWith] at h
      cases hn : root.at? here.reverse with
      | none => simp [hn] at h
      | some node =>
          rw [hn] at h
          cases h
          exact hn
  | cons name rest ih =>
      by_cases hdot : name = "."
      · subst hdot
        exact ih (walkWith_dot jump root follow here rest ▸ h)
      · by_cases hdots : name = ".."
        · subst hdots
          exact ih (walkWith_dots jump root follow here rest ▸ h)
        · have hd : IsDown name := ⟨hdot, hdots⟩
          cases hn : root.at? (name :: here).reverse with
          | none =>
              rw [walkWith_none hd hn] at h
              split at h
              · split at h
                · rename_i entries hp
                  cases h
                  refine ⟨here.reverse, name, entries, List.reverse_cons, hp, ?_⟩
                  rw [← at?_folder_child hp, ← List.reverse_cons, hn]
                · cases h
                · cases h
              · cases h
          | some node =>
              cases node with
              | folder entries => exact ih (walkWith_folder hd hn ▸ h)
              | file content modified =>
                  rw [walkWith_file hd hn] at h
                  split at h
                  · cases h
                    exact hn
                  · cases h
              | link target =>
                  rw [walkWith_link hd hn] at h
                  split at h
                  · cases h
                    exact hn
                  · exact hj _ _ h

theorem walk_fits (h : walk root follow links here ahead = .ok place) : Fits root place := by
  induction links generalizing here ahead with
  | zero => exact walkWith_fits (fun _ _ hj => by cases hj) h
  | succ links ih => exact walkWith_fits (fun _ _ hj => ih hj) h

theorem place?_eq_walk (h : place? root follow path = .ok place) :
    walk root follow linkLimit [] (steps path) = .ok place ∧ '\x00' ∉ path.toList := by
  by_cases he : path.isEmpty = true
  · simp [place?, he] at h
  · by_cases hnul : path.toList.contains '\x00' = true
    · rw [place?, if_neg he, if_pos hnul] at h
      cases h
    · rw [place?, if_neg he, if_neg hnul] at h
      exact ⟨h, by simpa using hnul⟩

theorem place?_of_walk (he : path ≠ "") (hnul : '\x00' ∉ path.toList)
    (h : walk root follow linkLimit [] (steps path) = .ok place) :
    place? root follow path = .ok place := by
  rw [place?, if_neg (by simpa using he), if_neg (by simpa using hnul)]
  exact h

theorem place?_found (h : place? root follow path = .ok (.found loc node)) :
    root.at? loc = some node := walk_fits (place?_eq_walk h).1

theorem place?_free (h : place? root follow path = .ok (.free loc)) :
    ∃ init name entries, loc = init ++ [name] ∧ root.at? init = some (.folder entries) ∧
      entries.lookup name = none := walk_fits (place?_eq_walk h).1

theorem at?_of_place?_free (h : place? root follow path = .ok (.free loc)) :
    root.at? loc = none := by
  obtain ⟨init, name, entries, rfl, hp, hn⟩ := place?_free h
  rw [at?_folder_child hp, hn]

theorem ne_nil_of_place?_free (h : place? root follow path = .ok (.free loc)) : loc ≠ [] := by
  obtain ⟨init, name, entries, rfl, -⟩ := place?_free h
  simp

/-! ### Links that are not followed -/

theorem walkWith_unfollowed {jump' : List String → List String → Except SystemError Place}
    (hj : ∀ here ahead, jump here ahead = .ok (.found loc node) →
      ∃ loc' node', jump' here ahead = .ok (.found loc' node'))
    (h : walkWith jump root true here ahead = .ok (.found loc node)) :
    ∃ loc' node', walkWith jump' root false here ahead = .ok (.found loc' node') := by
  induction ahead generalizing here with
  | nil => exact ⟨loc, node, h⟩
  | cons name rest ih =>
      by_cases hdot : name = "."
      · subst hdot
        rw [walkWith_dot] at h ⊢
        exact ih h
      · by_cases hdots : name = ".."
        · subst hdots
          rw [walkWith_dots] at h ⊢
          exact ih h
        · have hd : IsDown name := ⟨hdot, hdots⟩
          cases hn : root.at? (name :: here).reverse with
          | none =>
              rw [walkWith_none hd hn] at h ⊢
              exact ⟨loc, node, h⟩
          | some there =>
              cases there with
              | folder entries =>
                  rw [walkWith_folder hd hn] at h ⊢
                  exact ih h
              | file content modified =>
                  rw [walkWith_file hd hn] at h ⊢
                  exact ⟨loc, node, h⟩
              | link target =>
                  rw [walkWith_link hd hn, if_neg (by simp)] at h
                  rw [walkWith_link hd hn]
                  split
                  · exact ⟨_, _, rfl⟩
                  · exact hj _ _ h

theorem walk_unfollowed (h : walk root true links here ahead = .ok (.found loc node)) :
    ∃ loc' node', walk root false links here ahead = .ok (.found loc' node') := by
  induction links generalizing here ahead with
  | zero => exact walkWith_unfollowed (fun _ _ hj => by cases hj) h
  | succ links ih => exact walkWith_unfollowed (fun _ _ hj => ih hj) h

/-- Where a path leads to something, it also names something. -/
theorem place?_unfollowed (h : place? root true path = .ok (.found loc node)) :
    ∃ loc' node', place? root false path = .ok (.found loc' node') := by
  have hne : path ≠ "" := by
    rintro rfl
    cases h
  obtain ⟨hwalk, hnul⟩ := place?_eq_walk h
  obtain ⟨loc', node', hl⟩ := walk_unfollowed hwalk
  exact ⟨loc', node', place?_of_walk hne hnul hl⟩

theorem walkWith_followed {target : String} (hroot : IsFolderAt root [])
    (hh : IsFolderAt root here.reverse)
    (hj : ∀ here ahead, IsFolderAt root here.reverse →
      jump here ahead ≠ .ok (.found loc (.link target))) :
    walkWith jump root true here ahead ≠ .ok (.found loc (.link target)) := by
  induction ahead generalizing here with
  | nil =>
      obtain ⟨entries, he⟩ := hh
      simp [walkWith, he]
  | cons name rest ih =>
      by_cases hdot : name = "."
      · subst hdot
        rw [walkWith_dot]
        exact ih hh
      · by_cases hdots : name = ".."
        · subst hdots
          rw [walkWith_dots]
          exact ih hh.tail
        · have hd : IsDown name := ⟨hdot, hdots⟩
          cases hn : root.at? (name :: here).reverse with
          | none =>
              rw [walkWith_none hd hn]
              split
              · split <;> simp
              · simp
          | some there =>
              cases there with
              | folder entries =>
                  rw [walkWith_folder hd hn]
                  exact ih ⟨entries, hn⟩
              | file content modified =>
                  rw [walkWith_file hd hn]
                  split <;> simp
              | link aim =>
                  rw [walkWith_link hd hn, if_neg (by simp)]
                  refine hj _ _ ?_
                  split
                  · exact hroot
                  · exact hh

/-- Where links are followed, no path leads to a link. -/
theorem place?_followed {target : String} (hroot : IsFolderAt root []) :
    place? root true path ≠ .ok (.found loc (.link target)) := by
  have hwalk (links) : ∀ here ahead, IsFolderAt root here.reverse →
      walk root true links here ahead ≠ .ok (.found loc (.link target)) := by
    induction links with
    | zero => exact fun here ahead hh => walkWith_followed hroot hh fun _ _ _ => nofun
    | succ links ih => exact fun here ahead hh => walkWith_followed hroot hh ih
  intro h
  exact hwalk linkLimit [] (steps path) hroot (place?_eq_walk h).1

/-! ### Names in a folder -/

/-- The names of a path lead to a folder with the given entries. -/
def Leads (root : Node) (path : String) (loc : Location) (entries : List (String × Node)) : Prop :=
  walk root true linkLimit [] (Path.names path) = .ok (.found loc (.folder entries)) ∧
    '\x00' ∉ path.toList

theorem isStep_of_isName (h : IsName name) : Path.IsStep name :=
  ⟨h.1, h.2.1, h.2.2.1, h.2.2.2.1⟩

theorem steps_child (path : String) (h : Path.IsStep name) :
    steps (path ++ "/" ++ name) = Path.names path ++ [name] := by
  rw [steps, Path.names_child path h, Path.endsWithSeparator_child path h]
  simp

namespace Leads

theorem at?_eq (h : Leads root path loc entries) : root.at? loc = some (.folder entries) :=
  walk_fits h.1

theorem not_mem_child (h : Leads root path loc entries) (hn : IsName name) :
    '\x00' ∉ (path ++ "/" ++ name).toList := by
  simp only [String.toList_append, List.mem_append, not_or]
  exact ⟨⟨h.2, by decide⟩, hn.2.2.2.2⟩

theorem plain_names (h : Leads root path loc entries) :
    ∀ n ∈ Path.names path, n ≠ "" ∧ '/' ∉ n.toList ∧ '\x00' ∉ n.toList := by
  intro n hn
  obtain ⟨hne, hs⟩ := Path.mem_names hn
  exact ⟨hne, hs, fun hn' => h.2 (Path.mem_of_mem_names hn hn')⟩

/-- Where a name behind a path leads somewhere, the path leads to a folder. -/
theorem of_child {place : Place} (hroot : IsFolderAt root []) (hn : Path.IsStep name)
    (h : place? root follow (path ++ "/" ++ name) = .ok place) :
    ∃ loc entries, Leads root path loc entries := by
  obtain ⟨hwalk, hnul⟩ := place?_eq_walk h
  rw [steps_child path hn] at hwalk
  have hhere : IsFolderAt root ([] : List String).reverse := hroot
  obtain ⟨loc, entries, hl⟩ := walk_beginning (List.cons_ne_nil name []) hroot hhere hwalk
  simp only [String.toList_append, List.mem_append, not_or] at hnul
  exact ⟨loc, entries, hl, hnul.1.1⟩

theorem walk_child (h : Leads root path loc entries) (name : String) :
    ∃ links', ∀ follow, walk root follow linkLimit [] (Path.names path ++ [name]) =
      walk root follow links' loc.reverse [name] := by
  obtain ⟨links', hl⟩ := walk_append h.1
  exact ⟨links', fun follow => hl follow [name] (by simp)⟩

theorem free_child (h : Leads root path loc entries) (hn : IsName name)
    (hl : entries.lookup name = none) (follow : Bool) :
    place? root follow (path ++ "/" ++ name) = .ok (.free (loc ++ [name])) := by
  have hstep := isStep_of_isName hn
  refine place?_of_walk (by simp) (h.not_mem_child hn) ?_
  obtain ⟨links', hw⟩ := h.walk_child name
  have hd : IsDown name := ⟨hn.2.1, hn.2.2.1⟩
  have hat : root.at? (name :: loc.reverse).reverse = none := by
    rw [List.reverse_cons, List.reverse_reverse, at?_folder_child h.at?_eq, hl]
  have hlast : ∀ jump, walkWith jump root follow loc.reverse [name] =
      .ok (.free (loc ++ [name])) := by
    intro jump
    rw [walkWith_none hd hat, List.reverse_reverse, h.at?_eq, List.reverse_cons,
      List.reverse_reverse]
    rfl
  rw [steps_child path hstep, hw follow]
  cases links' <;> exact hlast _

theorem found_child (h : Leads root path loc entries) (hl : entries.lookup name = some node)
    (hw : root.WellFormed) (follow : Bool) (hf : follow = true → ∀ target, node ≠ .link target) :
    place? root follow (path ++ "/" ++ name) = .ok (.found (loc ++ [name]) node) := by
  have hn : IsName name := (hw.at? h.at?_eq).isName hl
  have hstep := isStep_of_isName hn
  refine place?_of_walk (by simp) (h.not_mem_child hn) ?_
  obtain ⟨links', hw'⟩ := h.walk_child name
  have hd : IsDown name := ⟨hn.2.1, hn.2.2.1⟩
  have hat : root.at? (name :: loc.reverse).reverse = some node := by
    rw [List.reverse_cons, List.reverse_reverse, at?_folder_child h.at?_eq, hl]
  have hrev : (name :: loc.reverse).reverse = loc ++ [name] := by simp
  rw [steps_child path hstep, hw' follow, ← hrev]
  cases links' <;> exact walkWith_last hd hat hf

/-- What a name behind the path leads to, when a link there is not followed. -/
theorem child_location (h : Leads root path loc entries) (hw : root.WellFormed) (hn : IsName name)
    (hp : place? root false (path ++ "/" ++ name) = .ok place) :
    place.location = loc ++ [name] := by
  cases hl : entries.lookup name with
  | none =>
      rw [h.free_child hn hl] at hp
      cases hp
      rfl
  | some node =>
      rw [h.found_child hl hw false nofun] at hp
      cases hp
      rfl

theorem folder_child (h : Leads root path loc entries) (hw : root.WellFormed)
    (hl : entries.lookup name = some (.folder entries')) :
    Leads root (path ++ "/" ++ name) (loc ++ [name]) entries' := by
  have hn : IsName name := (hw.at? h.at?_eq).isName hl
  have hp := (place?_eq_walk (h.found_child hl hw true nofun)).1
  rw [steps_child path (isStep_of_isName hn)] at hp
  refine ⟨?_, h.not_mem_child hn⟩
  rw [Path.names_child path (isStep_of_isName hn)]
  exact hp

theorem dot (h : Leads root path loc entries) : Leads root (path ++ "/" ++ ".") loc entries := by
  obtain ⟨links, hl⟩ := walk_append h.1
  refine ⟨?_, ?_⟩
  · rw [Path.names_append_slash, show Path.names "." = ["."] from rfl, hl true ["."] (by simp)]
    have hlast (jump) : walkWith jump root true loc.reverse ["."] =
        .ok (.found loc (.folder entries)) := by
      rw [walkWith_dot, walkWith, List.reverse_reverse, h.at?_eq]
    cases links <;> exact hlast _
  · simp only [String.toList_append, List.mem_append, not_or]
    exact ⟨⟨h.2, by decide⟩, by decide⟩

theorem place?_eq (h : Leads root path loc entries) (hne : path ≠ "")
    (hs : Path.endsWithSeparator path = false) :
    place? root true path = .ok (.found loc (.folder entries)) := by
  refine place?_of_walk hne h.2 ?_
  rw [steps, hs]
  simpa using h.1

theorem of_place? (hs : Path.endsWithSeparator path = false)
    (h : place? root true path = .ok (.found loc (.folder entries))) :
    Leads root path loc entries := by
  obtain ⟨hwalk, hnul⟩ := place?_eq_walk h
  rw [steps, hs] at hwalk
  exact ⟨by simpa using hwalk, hnul⟩

/-- Only the names of a path count. -/
theorem congr {other : String} (h : Leads root path loc entries)
    (hn : Path.names path = Path.names other) (hnul : '\x00' ∉ other.toList) :
    Leads root other loc entries := ⟨hn ▸ h.1, hnul⟩

theorem unique {loc' : Location} (h : Leads root path loc entries)
    (h' : Leads root path loc' entries') : loc = loc' ∧ entries = entries' := by
  have heq := h.1.symm.trans h'.1
  simp only [Except.ok.injEq, Place.found.injEq, Node.folder.injEq] at heq
  exact heq

/-- A path leads to the same folder as long as folders and links on the way stay. -/
theorem keep (h : Leads root path loc entries) (hk : Keeps root root')
    (hn : root'.at? loc = some (.folder entries')) : Leads root' path loc entries' :=
  ⟨(walk_carry hk id h.1).2 _ hn (by simp), h.2⟩

end Leads

/-! ### Canonical locations -/

theorem canonicalWith_append {tail : List String}
    {jump' : Option (List String → List String → List String)}
    (hself : ∃ links, canonicalWith jump' root = canonicalFrom root links)
    (hj : ∀ here ahead, jump here ahead = .ok (.found loc (.folder entries)) →
      ∃ next links', jump' = some next ∧
        next here (ahead ++ tail) = canonicalFrom root links' loc.reverse tail)
    (h : walkWith jump root true here ahead = .ok (.found loc (.folder entries))) :
    ∃ links', canonicalWith jump' root here (ahead ++ tail) =
      canonicalFrom root links' loc.reverse tail := by
  induction ahead generalizing here with
  | nil =>
      rw [walkWith] at h
      cases hn : root.at? here.reverse with
      | none => simp [hn] at h
      | some node =>
          rw [hn] at h
          cases h
          obtain ⟨links, hl⟩ := hself
          exact ⟨links, by rw [List.nil_append, List.reverse_reverse, hl]⟩
  | cons name rest ih =>
      by_cases hdot : name = "."
      · subst hdot
        rw [walkWith_dot] at h
        simpa [canonicalWith] using ih h
      · by_cases hdots : name = ".."
        · subst hdots
          rw [walkWith_dots] at h
          simpa [canonicalWith] using ih h
        · have hd : IsDown name := ⟨hdot, hdots⟩
          cases hn : root.at? (name :: here).reverse with
          | none =>
              rw [walkWith_none hd hn] at h
              split at h
              · split at h <;> cases h
              · cases h
          | some node =>
              simp only [List.cons_append, canonicalWith, beq_iff_eq, hdot, hdots, if_false, hn]
              cases node with
              | folder entries' =>
                  rw [walkWith_folder hd hn] at h
                  exact ih h
              | file content modified =>
                  rw [walkWith_file hd hn] at h
                  split at h <;> cases h
              | link target =>
                  rw [walkWith_link hd hn, if_neg (by simp)] at h
                  obtain ⟨next, links', rfl, hl⟩ := hj _ _ h
                  exact ⟨links', by rw [← hl, List.append_assoc]⟩

/-- A canonical location goes on from the folder to which the beginning of a path leads. -/
theorem canonicalFrom_append (tail : List String)
    (h : walk root true links here ahead = .ok (.found loc (.folder entries))) :
    ∃ links', canonicalFrom root links here (ahead ++ tail) =
      canonicalFrom root links' loc.reverse tail := by
  induction links generalizing here ahead with
  | zero => exact canonicalWith_append ⟨0, rfl⟩ (fun _ _ hj => by cases hj) h
  | succ links ih =>
      refine canonicalWith_append ⟨links + 1, rfl⟩ (fun here ahead hj => ?_) h
      obtain ⟨links', hl⟩ := ih hj
      exact ⟨_, links', rfl, hl⟩

theorem canonicalFrom_folder
    (h : walk root true links here ahead = .ok (.found loc (.folder entries))) :
    canonicalFrom root links here ahead = loc := by
  obtain ⟨links', hl⟩ := canonicalFrom_append [] h
  rw [List.append_nil] at hl
  rw [hl]
  cases links' <;> exact List.reverse_reverse loc

/-- Names of which the first one is free are put behind the folder. -/
theorem canonicalFrom_free (hn : ∀ n ∈ name :: rest, Path.IsStep n)
    (hl : ∀ n ∈ loc, Path.IsStep n) (hnone : root.at? (loc ++ [name]) = none) :
    canonicalFrom root links loc.reverse (name :: rest) = loc ++ name :: rest := by
  obtain ⟨-, hdot, hdots, -⟩ := hn name List.mem_cons_self
  have hsteps : ∀ n ∈ loc ++ name :: rest, Path.IsStep n := by
    intro n hmem
    rcases List.mem_append.mp hmem with hmem | hmem
    · exact hl n hmem
    · exact hn n hmem
  have hcanon (jump) :
      canonicalWith jump root loc.reverse (name :: rest) = loc ++ name :: rest := by
    simp only [canonicalWith, beq_iff_eq, hdot, hdots, if_false, List.reverse_cons,
      List.reverse_reverse, hnone]
    exact Path.normalNames_of_steps true hsteps
  cases links <;> exact hcanon _

end Lookup

end ScriptPack

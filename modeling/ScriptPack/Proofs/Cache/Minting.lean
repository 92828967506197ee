import Mathlib.Data.List.Nodup
import Mathlib.Data.List.Perm.Subperm
import ScriptPack.Proofs.Cache.Shelf
import ScriptPack.Proofs.Path.Joining

/-!
Minting ids. The numbers are tried in turn until one leads nowhere. A folder has too few entries to
be in the way of one more number than it has entries, so that the last number need not be tried.
-/

namespace ScriptPack.Cache

open Effect Node Lookup Files

variable {cache : Cache} {loc : Location} {w : World} {entries : List (String × Node)}
  {base signature name current path : String} {n : Nat}

/-- Whether something exists under the name of an artifact. -/
def Taken (cache : Cache) (w : World) (id : String) : Prop :=
  exists? (artifactPath cache.directory id) w = (.ok true, w)

def Untaken (cache : Cache) (w : World) (id : String) : Prop :=
  exists? (artifactPath cache.directory id) w = (.ok false, w)

theorem taken_or_untaken (cache : Cache) (w : World) (id : String) :
    cache.Taken w id ∨ cache.Untaken w id := by
  obtain ⟨there, hx⟩ := exists?_same (artifactPath cache.directory id) w
  cases there with
  | true => exact .inl hx
  | false => exact .inr hx

theorem freeId_of_taken (h : cache.Taken w (numberedId base n)) (tries : Nat) :
    cache.freeId base n (tries + 1) w = cache.freeId base (n + 1) tries w := by
  rw [freeId, bind_ok h]
  rfl

theorem freeId_of_untaken (h : cache.Untaken w (numberedId base n)) (tries : Nat) :
    cache.freeId base n tries w = (.ok (numberedId base n), w) := by
  cases tries with
  | zero => rfl
  | succ tries =>
      rw [freeId, bind_ok h]
      rfl

/-- The numbers are tried in turn, until one leads nowhere or no try is left. -/
theorem freeId_first (cache : Cache) (base : String) (n tries : Nat) (w : World) :
    ∃ m, cache.freeId base n tries w = (.ok (numberedId base m), w) ∧ m ≤ n + tries ∧
      (∀ k, n ≤ k → k < m → cache.Taken w (numberedId base k)) ∧
      (m < n + tries → cache.Untaken w (numberedId base m)) := by
  induction tries generalizing n with
  | zero => exact ⟨n, rfl, Nat.le_refl n, fun k hk hk' => by omega, fun hm => by omega⟩
  | succ tries ih =>
      rcases taken_or_untaken cache w (numberedId base n) with hx | hx
      · obtain ⟨m, hm, hle, htaken, hfree⟩ := ih (n + 1)
        refine ⟨m, (freeId_of_taken hx tries).trans hm, by omega, fun k hk hk' => ?_,
          fun hlt => hfree (by omega)⟩
        by_cases hkn : k = n
        · exact hkn ▸ hx
        · exact htaken k (by omega) hk'
      · exact ⟨n, freeId_of_untaken hx _, by omega, fun k hk hk' => by omega, fun _ => hx⟩

/-- More tries than it takes make no difference. -/
theorem freeId_of_first {m : Nat} (htaken : ∀ k < m, cache.Taken w (numberedId base k))
    (hfree : cache.Untaken w (numberedId base m)) {tries : Nat} (hn : n ≤ m) (ht : m ≤ n + tries) :
    cache.freeId base n tries w = (.ok (numberedId base m), w) := by
  induction tries generalizing n with
  | zero =>
      obtain rfl : n = m := by omega
      rfl
  | succ tries ih =>
      by_cases hnm : n = m
      · exact hnm ▸ freeId_of_untaken (hnm ▸ hfree) _
      · rw [freeId_of_taken (htaken n (by omega))]
        exact ih (by omega) (by omega)

/-- Numbers from zero on that are all in use are no more than there are entries. -/
theorem le_length_of_taken {m : Nat}
    (h : ∀ k, k < m → numberedId base k ∈ entries.map (·.1)) : m ≤ entries.length := by
  have hnodup : ((List.range m).map (numberedId base)).Nodup :=
    (List.nodup_range).map (numberedId_injective base)
  have hsubset : (List.range m).map (numberedId base) ⊆ entries.map (·.1) := by
    intro id hid
    obtain ⟨k, hk, rfl⟩ := List.mem_map.mp hid
    exact h k (List.mem_range.mp hk)
  simpa using (hnodup.subperm hsubset).length_le

/-- Where there is something under the name of an artifact, the folder can be listed, and the name
is in the list. -/
theorem mem_entries_of_taken (hroot : IsFolderAt w.root [])
    (hdir : cache.directory = Path.resolve current path) (hn : IsName name)
    (ht : cache.Taken w name) :
    ∃ entries, list cache.directory w = (.ok entries, w) ∧ name ∈ entries.map (·.1) := by
  have hstep := isStep_of_isName hn
  -- the folder as it stands in front of the names in it, which is nothing if it is the root
  obtain ⟨front, hpath, hlist⟩ : ∃ front, artifactPath cache.directory name = front ++ "/" ++ name ∧
      ∀ loc entries, Leads w.root front loc entries →
        place? w.root true cache.directory = .ok (.found loc (.folder entries)) := by
    rcases Path.resolve_isNormal current path with hd | hd
    · refine ⟨"", ?_, fun loc entries hl => ?_⟩
      · rw [hdir, hd, artifactPath, Path.join_root hstep]
        rfl
      · rw [hdir, hd]
        exact hl.dot.place?_eq (by decide) (by decide)
    · rw [← hdir] at hd
      exact ⟨cache.directory, artifactPath_eq hd hstep, fun loc entries hl =>
        hl.place?_eq hd.ne_empty hd.endsWithSeparator⟩
  have habs : Path.isAbsolute cache.directory = true := hdir ▸ Path.isAbsolute_resolve current path
  have habs' : Path.isAbsolute (artifactPath cache.directory name) = true :=
    Path.isAbsolute_join habs hstep
  by_cases hthere : Leads? w.root (absolute w (artifactPath cache.directory name))
  · obtain ⟨loc, node, hp⟩ := hthere
    rw [absolute_of_isAbsolute habs', hpath] at hp
    obtain ⟨loc', entries, hl⟩ := Leads.of_child hroot hstep hp
    refine ⟨entries, list_folder (by rw [absolute_of_isAbsolute habs]; exact hlist _ _ hl), ?_⟩
    cases hlook : entries.lookup name with
    | none =>
        rw [hl.free_child hn hlook] at hp
        cases hp
    | some node => exact List.mem_map_of_mem (mem_of_lookup hlook)
  · cases ht.symm.trans (exists?_of_not hthere)

theorem mintId_numbered (cache : Cache) (signature : String) (w : World) :
    ∃ n, cache.mintId signature w = (.ok (numberedId (baseId signature w.clock) n), w) := by
  rw [mintId]
  rcases list_same cache.directory w with ⟨entries, hlist⟩ | ⟨failure, hlist⟩
  · obtain ⟨m, hm, -⟩ := freeId_first cache (baseId signature w.clock) 0 entries.length w
    exact ⟨m, (bind_ok (attempt_ok hlist)).trans hm⟩
  · exact ⟨0, (bind_ok (attempt_failed hlist)).trans rfl⟩

/-- The minted id has the first number that is not taken. -/
theorem mintId_first (hroot : IsFolderAt w.root [])
    (hdir : cache.directory = Path.resolve current path) (hd : Signature.IsDigest signature) :
    ∃ n, cache.mintId signature w = (.ok (numberedId (baseId signature w.clock) n), w) ∧
      (∀ k < n, cache.Taken w (numberedId (baseId signature w.clock) k)) ∧
      cache.Untaken w (numberedId (baseId signature w.clock) n) := by
  have hname (k : Nat) : IsName (numberedId (baseId signature w.clock) k) :=
    ((isId_baseId hd w.clock).numbered k).isName
  rcases list_same cache.directory w with ⟨entries, hlist⟩ | ⟨failure, hlist⟩
  · obtain ⟨m, hm, -, htaken, hfree⟩ :=
      freeId_first cache (baseId signature w.clock) 0 entries.length w
    refine ⟨m, ?_, fun k hk => htaken k (by omega) hk, ?_⟩
    · rw [mintId, bind_ok (attempt_ok hlist)]
      exact hm
    · by_cases hlt : m < 0 + entries.length
      · exact hfree hlt
      -- All numbers before `m` are taken, so if `m` were taken too, there would be more names than
      -- entries.
      refine (taken_or_untaken cache w _).resolve_left fun hx => ?_
      have hall : ∀ k, k < m + 1 →
          numberedId (baseId signature w.clock) k ∈ entries.map (·.1) := by
        intro k hk
        have hk : cache.Taken w (numberedId (baseId signature w.clock) k) := by
          by_cases hkm : k = m
          · exact hkm ▸ hx
          · exact htaken k (by omega) (by omega)
        obtain ⟨entries', hlist', hmem⟩ := mem_entries_of_taken hroot hdir (hname k) hk
        cases hlist.symm.trans hlist'
        exact hmem
      have hcount := le_length_of_taken hall
      omega
  · refine ⟨0, ?_, fun k hk => by omega, ?_⟩
    · rw [mintId, bind_ok (attempt_failed hlist)]
      rfl
    · refine (taken_or_untaken cache w _).resolve_left fun hx => ?_
      obtain ⟨entries, hlist', -⟩ := mem_entries_of_taken hroot hdir (hname 0) hx
      cases hlist.symm.trans hlist'

/-- A name for a new artifact: there is nothing under it, or a link that leads nowhere. -/
def Vacant (entries : List (String × Node)) (id : String) : Prop :=
  ∀ node, entries.lookup id = some node → ∃ target, node = .link target

/-- The minted id is a numbered one, and vacant. -/
theorem mintId_open (h : Open cache.directory loc entries w)
    (hd : Signature.IsDigest signature) :
    ∃ n, cache.mintId signature w = (.ok (numberedId (baseId signature w.clock) n), w) ∧
      Vacant entries (numberedId (baseId signature w.clock) n) := by
  obtain ⟨n, hx, -, hfree⟩ :=
    mintId_first h.running.folder (h.normal.resolve_eq "/").symm hd
  refine ⟨n, hx, fun node hl => ?_⟩
  have hstep := isStep_of_isName ((isId_baseId hd w.clock).numbered n).isName
  rw [Untaken, artifactPath_eq h.normal hstep] at hfree
  exact h.lookup_of_not_exists? hfree hl

theorem mintId_closed (h : Closed cache.directory w) (signature : String) :
    cache.mintId signature w = (.ok (numberedId (baseId signature w.clock) 0), w) := by
  obtain ⟨failure, hlist⟩ := h.list
  rw [mintId, bind_ok (attempt_failed hlist)]
  rfl

end ScriptPack.Cache

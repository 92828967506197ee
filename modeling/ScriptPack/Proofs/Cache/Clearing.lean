import ScriptPack.Proofs.Cache.Consistent

/-!
Clearing a cache: its folder is removed with all that is in it, and made again for a document
without records.
-/

namespace ScriptPack.Cache

open Effect Node Lookup Files

variable {cache : Cache} {store : Store} {loc : Location} {w w' : World}
  {entries : List (String × Node)} {dir : String} {shared : Bool}

/-- Nothing but the document is left. -/
def Cleared (entries' : List (String × Node)) : Prop :=
  ∀ name, name ≠ documentName → entries'.lookup name = none

/-- Once the folder is there and empty, the document of no records can be written. -/
theorem clear_made (hx : Files.makeFolders store.root w = (.ok (), w'))
    (h : Open store.root loc [] w') :
    ∃ entries' w'', store.clear w = (.ok { store with records := [] }, w'') ∧
      Shelf store.root entries' w'' ∧ Consistent shared entries' [] ∧ Cleared entries' := by
  have hempty := Consistent.empty
  obtain ⟨text, ht⟩ := hempty.serialize
  obtain ⟨w₂, hx₂, he⟩ := commit_open h hempty.tidy ht
  refine ⟨_, w₂, (commit_made hx h []).trans hx₂, .inr ⟨loc, h.put ?_ he⟩, ?_, fun name hn => ?_⟩
  · exact h.wellFormed.setEntry isName_documentName (.file _ _)
  · exact hempty.commit .nil ht nofun List.nodup_nil w'.stamp
  · rw [lookup_setEntry .nil, if_neg hn]
    rfl

theorem Missing.clear_store (h : Missing store.root w) :
    (∃ failure, store.clear w = (.error (.failed failure), w)) ∨
      ∃ entries' w', store.clear w = (.ok { store with records := [] }, w') ∧
        Shelf store.root entries' w' ∧ Consistent shared entries' [] ∧ Cleared entries' := by
  rcases h.closed.makeFolders with ⟨failure, hf⟩ | ⟨root, loc, ⟨w₁, hx, he⟩, -, -, hopen⟩
  · exact .inl ⟨failure, by rw [Store.clear, Store.commit_eq, bind_error hf]⟩
  · exact .inr (clear_made hx (hopen w₁ he))

/-- Where a path leads after something is removed, it has led before. -/
theorem leads?_of_remove {root : Node} {path : String} (hw : root.WellFormed)
    (hroot : IsFolderAt root []) (hl : loc ≠ []) (h : Leads? (root.remove loc) path) :
    Leads? root path := by
  obtain ⟨loc', node, hp⟩ := h
  have hn := place?_found hp
  have hnot : ¬loc <+: loc' := by
    rintro ⟨tail, rfl⟩
    rw [at?_append, at?_remove_self hw hl] at hn
    cases hn
  have hb : ((root.remove loc).at? loc').map bare = (root.at? loc').map bare :=
    at?_alter_bare hw hnot
  rw [hn] at hb
  cases hn' : root.at? loc' with
  | none => simp [hn'] at hb
  | some there =>
      refine ⟨loc', there, place?_carry_found (.remove hw hl) id hp hn' ?_⟩
      rintro - target rfl
      rw [hn'] at hb
      cases node with
      | folder entries => cases hb
      | file content modified => cases hb
      | link aim => exact place?_followed (hroot.remove hl) hp

/-- Removing what is at the path of a missing folder. That may be a link that leads nowhere. -/
theorem Missing.removeAll (h : Missing dir w) :
    ∃ w', (removeAll dir w = (.ok (), w') ∨
      ∃ failure, removeAll dir w = (.error (.failed failure), w')) ∧ Missing dir w' := by
  have hw := h.running.wellFormed
  cases hp : place? w.root false (absolute w dir) with
  | error error =>
      by_cases hne : error = .noEntry
      · exact ⟨w, .inl (removeAll_noEntry (hne ▸ hp)), h⟩
      · exact ⟨w, .inr ⟨_, removeAll_error hp hne⟩, h⟩
  | ok place =>
      cases place with
      | free loc => exact ⟨w, .inl (removeAll_free hp), h⟩
      | found loc node =>
          obtain ⟨target, rfl⟩ : ∃ target, node = .link target := by
            by_contra hnot
            have hf : false = true → true = true := nofun
            refine h.absent ⟨loc, node, ?_⟩
            rw [absolute_normal h.normal] at hp
            exact place?_carry_found (.refl _) hf hp (place?_found hp)
              fun _ target ht => hnot ⟨target, ht⟩
          have hloc : loc ≠ [] := by
            rintro rfl
            obtain ⟨entries, he⟩ := h.running.folder
            cases he.symm.trans (place?_found hp)
          obtain ⟨w', hx, he⟩ := removeAll_found hloc h.running.steps hw hp
          refine ⟨w', .inl hx, h.running.evolve he (hw.remove loc) (h.running.folder.remove hloc),
            h.normal, fun hleads => h.absent ?_⟩
          rw [he.root_eq] at hleads
          exact leads?_of_remove hw h.running.folder hloc hleads

/-- Removing the folder leaves its place free, and there it can be made again. -/
theorem Open.removeAll (h : Open dir loc entries w) :
    ∃ w₁ w₂, removeAll dir w = (.ok (), w₁) ∧ Files.makeFolders dir w₁ = (.ok (), w₂) ∧
      Open dir loc [] w₂ := by
  have hw := h.running.wellFormed
  have hloc := h.holds.ne_nil
  have habs {w : World} := absolute_normal h.normal (w := w)
  obtain ⟨w₁, hx, he⟩ := removeAll_found hloc h.running.steps hw
    (by rw [habs]; exact h.holds.found hw false)
  have hr₁ := h.running.evolve he (hw.remove loc) (h.running.folder.remove hloc)
  have hfree := h.holds.free
  rw [← he.root_eq] at hfree
  obtain ⟨w₂, hx₂, he₂⟩ := makeFolders_free hr₁.steps hr₁.wellFormed hr₁.folder h.normal hfree
  have hempty : WellFormed (.folder []) := wellFormed_empty
  have hsame : Node.put loc .empty w₁.root = Node.put loc (.folder []) w.root := by
    rw [he.root_eq]
    exact alter_alter hw hloc
  rw [hsame] at he₂
  exact ⟨w₁, w₂, hx, hx₂, h.put hempty (he.trans he₂)⟩

/-- Clearing cannot make the folder, or leaves nothing but the document of no records. -/
theorem clear_cases (h : Stands shared cache entries w) :
    (∃ w', cache.clear w = (.ok (false, cache), w') ∧ Stands shared cache entries w') ∨
    ∃ entries' w', cache.clear w = (.ok (true, cache.withRecords []), w') ∧
      Stands shared (cache.withRecords []) entries' w' ∧ Cleared entries' := by
  have hroot := h.root_eq
  have hfails {w₁ : World} {failure : Failure} (hm : Missing cache.directory w₁)
      (hx : (do removeAll cache.directory; cache.store.clear) w = (.error (.failed failure), w₁)) :
      ∃ w', cache.clear w = (.ok (false, cache), w') ∧ Missing cache.directory w' := by
    obtain ⟨w₂, hx₂, he₂⟩ := warnFailed_does .cacheWriteFailed "cannot clear cache" failure w₁
    refine ⟨w₂, ?_, hm.same he₂⟩
    rw [clear, bind_ok (attempt_failed hx)]
    exact bind_ok hx₂
  have hclears {w₁ : World} {entries' : List (String × Node)}
      (hs : Shelf cache.store.root entries' w₁) (hc : Consistent shared entries' [])
      (hx : (do removeAll cache.directory; cache.store.clear) w =
        (.ok { cache.store with records := [] }, w₁)) :
      ∃ w', cache.clear w = (.ok (true, cache.withRecords []), w') ∧
        Stands shared (cache.withRecords []) entries' w' := by
    obtain ⟨w₂, hx₂, he₂⟩ := logFields_does .cache "build cache cleared"
      [("directory", .string cache.directory)] w₁
    rw [hroot] at hs
    refine ⟨w₂, ?_, hroot, hs.same he₂, hc⟩
    rw [clear, bind_ok (attempt_ok hx)]
    exact bind_ok hx₂
  rcases h.shelf with ⟨hm, rfl⟩ | ⟨loc, ho⟩
  · have hstands {w' : World} (hm' : Missing cache.directory w') : Stands shared cache [] w' :=
      ⟨hroot, .inl ⟨hm', rfl⟩, h.consistent⟩
    obtain ⟨w₁, hx | ⟨failure, hx⟩, hm₁⟩ := hm.removeAll
    · rcases (hroot ▸ hm₁ : Missing cache.store.root w₁).clear_store with
        ⟨failure, hf⟩ | ⟨entries', w₂, hx₂, hs, hc, hn⟩
      · obtain ⟨w', hx', hm'⟩ := hfails hm₁ ((bind_ok hx).trans hf)
        exact .inl ⟨w', hx', hstands hm'⟩
      · obtain ⟨w', hx', hs'⟩ := hclears hs hc ((bind_ok hx).trans hx₂)
        exact .inr ⟨entries', w', hx', hs', hn⟩
    · obtain ⟨w', hx', hm'⟩ := hfails hm₁ (bind_error hx)
      exact .inl ⟨w', hx', hstands hm'⟩
  · obtain ⟨w₁, w₂, hx, hx₂, ho₂⟩ := ho.removeAll
    rw [← hroot] at hx₂ ho₂
    obtain ⟨entries', w₃, hx₃, hs, hc, hn⟩ := clear_made hx₂ ho₂
    obtain ⟨w', hx', hs'⟩ := hclears hs hc ((bind_ok hx).trans hx₃)
    exact .inr ⟨entries', w', hx', hs', hn⟩

end ScriptPack.Cache

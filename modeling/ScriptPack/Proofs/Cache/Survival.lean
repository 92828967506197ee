import ScriptPack.Proofs.Cache.Inventory
import ScriptPack.Proofs.Cache.Trimming

/-!
What a store call keeps of itself. It evicts after it has recorded its own entry, and that goes like
any other one: if it is the newest, it stays exactly if all records are within the limit or it is
within the target of eviction by itself. If it stays, it is found.
-/

namespace ScriptPack

namespace Number

/-- A smaller sum is within a limit, too. -/
theorem atMost_of_le {a b : Nat} {limit : Number} (hle : a ≤ b) (hb : b ≤ 2 ^ 53)
    (h : atMost (ofNat b) limit = true) : atMost (ofNat a) limit = true := by
  rw [ofNat_of_le hb] at h
  rw [ofNat_of_le (hle.trans hb)]
  cases limit with
  | nan => cases h
  | infinite negative => cases negative <;> simp_all [atMost, less]
  | finite q =>
      rw [atMost_finite] at h ⊢
      exact le_trans (by exact_mod_cast hle) h

end Number

namespace Records

variable {records : Records} {list : List Entry} {entry : Entry}

/-- The newest entry is sorted to the end. -/
theorem Sorts.eq_concat (h : Sorts records list) (hd : (records.map (·.signature)).Nodup)
    (hdated : ∀ e ∈ records, e.storedAt ≠ .invalid) (he : entry ∈ records)
    (hnewest : ∀ e ∈ records, e ≠ entry → e.time < entry.time) :
    ∃ front, list = front ++ [entry] ∧ entry ∉ front := by
  have hnodup : list.Nodup := h.perm.nodup_iff.mpr (.of_map _ hd)
  obtain ⟨front, back, rfl⟩ := List.append_of_mem (h.perm.mem_iff.mpr he)
  have hfront : entry ∉ front := fun hmem =>
    List.disjoint_of_nodup_append hnodup hmem List.mem_cons_self
  have hback : back = [] := by
    refine List.eq_nil_iff_forall_not_mem.mpr fun later hlater => ?_
    have hin : later ∈ records :=
      h.perm.mem_iff.mp (List.mem_append_right _ (List.mem_cons_of_mem _ hlater))
    have hne : later ≠ entry := by
      rintro rfl
      exact (List.nodup_cons.mp (List.nodup_append.mp hnodup).2.1).1 hlater
    have hle := (List.pairwise_cons.mp (List.pairwise_append.mp h.sorted).2.1).1 later hlater
    rw [notLater_eq (hdated entry he) (hdated later hin), decide_eq_true_eq] at hle
    have hlt := hnewest later hin hne
    omega
  exact ⟨front, by rw [hback], hfront⟩

end Records

namespace Cache

open Effect Records

variable {cache : Cache} {entry : Entry} {size : Entry → Nat} {limit : Rat}

theorem mem_afterEviction (hd : (cache.store.records.map (·.signature)).Nodup) :
    entry ∈ cache.afterEviction.store.records ↔
      entry ∈ cache.store.records ∧ entry ∉ cache.evicted := by
  change entry ∈ cache.store.records.erase _ ↔ _
  rw [erase_signatures hd fun e => mem_records_of_mem_evicted, List.mem_filter]
  simp

/-- The newest entry stays if nothing has to go, or if it may be the last one that is left. -/
theorem newest_stays_iff (hd : (cache.store.records.map (·.signature)).Nodup)
    (hdated : ∀ e ∈ cache.store.records, e.storedAt ≠ .invalid)
    (hsize : ∀ e ∈ cache.store.records, e.sizeBytes = .ofNat (size e))
    (hsum : (cache.store.records.map size).sum < 2 ^ 53)
    (hlimit : cache.settings.maxSizeMB = .finite limit) (hpos : 0 ≤ limit)
    (he : entry ∈ cache.store.records)
    (hnewest : ∀ e ∈ cache.store.records, e ≠ entry → e.time < entry.time) :
    entry ∈ cache.afterEviction.store.records ↔
      Number.atMost cache.store.records.totalBytes cache.maxBytes = true ∨
        Number.atMost entry.sizeBytes (cache.maxBytes * evictionTarget) = true := by
  have hsorts := oldestFirst_sorts hdated
  obtain ⟨k, hk, hshort, -⟩ := evicted_shortest hdated hsize hsum hlimit hpos
  obtain ⟨front, hlist, hfront⟩ := hsorts.eq_concat hd hdated he hnewest
  have hbound : (front.map size).sum + size entry < 2 ^ 53 := by
    rw [← (hsorts.perm.map size).sum_eq, hlist] at hsum
    simpa using hsum
  have hstays : entry ∈ cache.afterEviction.store.records ↔ k ≤ front.length := by
    rw [mem_afterEviction hd, hk, hlist]
    constructor
    · rintro ⟨-, hnot⟩
      by_contra hlong
      refine hnot ?_
      rw [List.take_of_length_le (by simp; omega)]
      exact List.mem_append_right _ (List.mem_singleton_self entry)
    · intro hle
      rw [List.take_append_of_le_length hle]
      exact ⟨he, fun hmem => hfront (List.mem_of_mem_take hmem)⟩
  rw [hstays, totalBytes_of_sizes hsize hsum.le, hsize entry he]
  by_cases hfull : Number.atMost (.ofNat (cache.store.records.map size).sum) cache.maxBytes = true
  · rw [if_pos hfull] at hshort
    exact iff_of_true (by omega) (.inl hfull)
  · rw [if_neg hfull, hlist] at hshort
    obtain ⟨-, hshort⟩ := hshort
    refine ⟨fun hle => .inr ?_, fun hor => ?_⟩
    · -- What is left holds the newest entry.
      have hwithin := hshort.within
      rw [List.drop_append_of_le_length hle, List.map_append, List.sum_append, List.map_singleton,
        List.sum_singleton] at hwithin
      refine Number.atMost_of_le (Nat.le_add_left _ _) (le_trans ?_ hbound.le) hwithin
      exact Nat.add_le_add_right
        (((List.drop_sublist k front).map size).sum_le_sum fun _ _ => Nat.zero_le _) _
    · by_contra hlong
      have hover := hshort.least front.length (by omega)
      rw [List.drop_left, List.map_singleton, List.sum_singleton,
        hor.resolve_left hfull] at hover
      cases hover

/-- A store call that returns true has recorded an entry of the script's signature and of the present
time, and has evicted then. If all others are older, the entry stays exactly if the records are
within the limit with it, or if it is within the target by itself. As long as it is there and in its
time, it is found. -/
theorem Run.store_keeps {settings : CacheSettings} {s₀ s s' : State} (h₀ : Starts settings s₀)
    (h : Run GivesTree s₀ s) {script invocation output : String} {expected : Option String}
    (hg : GivesTree s (.store script invocation output expected))
    (hx : (Call.store script invocation output expected).run s.cache s.world =
      (.ok (.stored true, s'.cache), s'.world)) :
    ∃ entry, Files.signature script invocation s.world = (.ok entry.signature, s.world) ∧
      entry.storedAt = .ofNumber s.world.clock ∧
      s'.cache = (s.cache.recorded entry).afterEviction ∧
      (∀ (size : Entry → Nat) (limit : Rat),
        (∀ e ∈ (s.cache.recorded entry).store.records, e.sizeBytes = .ofNat (size e)) →
        ((s.cache.recorded entry).store.records.map size).sum < 2 ^ 53 →
        s.cache.settings.maxSizeMB = .finite limit → 0 ≤ limit →
        (∀ e ∈ s.cache.store.records, e.signature ≠ entry.signature → e.time < entry.time) →
        (entry ∈ s'.cache.store.records ↔
          Number.atMost (s.cache.recorded entry).store.records.totalBytes s.cache.maxBytes = true ∨
            Number.atMost entry.sizeBytes (s.cache.maxBytes * evictionTarget) = true)) ∧
      (entry ∈ s'.cache.store.records → s'.cache.isExpired s'.world.clock entry = false →
        Does (s'.cache.lookupSignature entry.signature) s'.world
          (some (s'.cache.artifact entry), s'.cache) s'.world.root) := by
  obtain ⟨entries, hs, hexact⟩ := h.inventory h₀
  obtain ⟨_, _, entries', _, hx', hs', hm⟩ :=
    (Call.store script invocation output expected).run_cases hs
  obtain ⟨cache', world'⟩ := s'
  cases hx.symm.trans hx'
  have hexact' := hm.exact hs hs'.consistent hg hexact
  cases hm with
  | left hp | dropped hp => exact absurd rfl hp.2
  | @kept _ _ _ _ entry _ _ hsignature _ _ ht =>
      have henabled : s.cache.settings.enabled = true := by
        by_contra hdisabled
        rw [Call.run, keep, Bool.eq_false_iff.mpr hdisabled] at hx
        cases hx
      refine ⟨entry, hsignature, ht.stamped, rfl, fun size limit hsize hsum hlimit hpos hnewest => ?_,
        fun he hexpired => lookupSignature_found hs' hexact' he henabled hexpired⟩
      refine newest_stays_iff (nodup_set hs.consistent.distinct entry) (fun e he => ?_) hsize hsum
        hlimit hpos (self_mem_set _ entry) fun e he hne => ?_
      · rcases mem_set he with rfl | ⟨hin, -⟩
        · exact ht.filed.dated
        · exact (hs.consistent.filed e hin).dated
      · obtain ⟨hin, hother⟩ := (mem_set he).resolve_left hne
        exact hnewest e hin hother

end Cache

end ScriptPack

import ScriptPack.Proofs.Cache.Eviction
import ScriptPack.Proofs.Number.Magnitude

/-!
Which records eviction drops. Sizes that add up to less than 2⁵³ are added and subtracted without
rounding, so the running total is that of the records that are left; the records that go are the
shortest row of the oldest ones without which the rest is small enough.
-/

namespace ScriptPack

/-- The moment at which an entry was stored, in milliseconds. -/
def Entry.time (e : Entry) : Int :=
  match e.storedAt with
  | .at ms => ms
  | .invalid => 0

namespace Records

variable {records : Records} {size : Entry → Nat}

theorem notLater_eq {a b : Entry} (ha : a.storedAt ≠ .invalid) (hb : b.storedAt ≠ .invalid) :
    notLater a b = decide (a.time ≤ b.time) := by
  obtain ⟨_, _, stored, _, _, _⟩ := a
  obtain ⟨_, _, stored', _, _, _⟩ := b
  cases stored with
  | invalid => exact absurd rfl ha
  | «at» s =>
      cases stored' with
      | invalid => exact absurd rfl hb
      | «at» t => rfl

/-- The same entries in the order of their times; of those with one time, the first comes first. -/
structure Sorts (records list : List Entry) : Prop where
  perm : list.Perm records
  sorted : list.Pairwise fun a b => notLater a b = true
  stable : ∀ time, list.filter (·.storedAt == time) = records.filter (·.storedAt == time)

theorem oldestFirst_sorts (h : ∀ e ∈ records, e.storedAt ≠ .invalid) :
    Sorts records records.oldestFirst := by
  have hsort : records.oldestFirst = records.mergeSort fun a b => decide (a.time ≤ b.time) := by
    have hmap := List.map_mergeSort (f := id) (r := notLater)
      (s := fun a b => decide (a.time ≤ b.time)) (l := records)
      fun a ha b hb => notLater_eq (h a ha) (h b hb)
    rwa [List.map_id, List.map_id] at hmap
  have htrans : ∀ a b c : Entry, decide (a.time ≤ b.time) = true → decide (b.time ≤ c.time) = true →
      decide (a.time ≤ c.time) = true := by
    simp only [decide_eq_true_eq]
    omega
  have htotal : ∀ a b : Entry, (decide (a.time ≤ b.time) || decide (b.time ≤ a.time)) = true := by
    simp only [Bool.or_eq_true, decide_eq_true_eq]
    omega
  have hperm : records.oldestFirst.Perm records := List.mergeSort_perm _ _
  refine ⟨hperm, ?_, fun time => ?_⟩
  · have hpairs := List.pairwise_mergeSort htrans htotal records
    rw [← hsort] at hpairs
    refine hpairs.imp_of_mem fun ha hb hle => ?_
    rwa [notLater_eq (h _ (hperm.mem_iff.mp ha)) (h _ (hperm.mem_iff.mp hb))]
  · -- Entries of one time are in order as they are, so that sorting leaves them as they are.
    have hsame : (records.filter (·.storedAt == time)).Pairwise
        fun a b => decide (a.time ≤ b.time) = true := by
      rw [List.pairwise_filter]
      refine List.pairwise_of_forall fun a b ha hb => ?_
      rw [beq_iff_eq] at ha hb
      simp [Entry.time, ha, hb]
    have hsub := List.sublist_mergeSort htrans htotal hsame List.filter_sublist
    rw [← hsort] at hsub
    have hsub' := hsub.filter (·.storedAt == time)
    simp only [List.filter_filter, Bool.and_self] at hsub'
    exact (hsub'.eq_of_length (hperm.filter _).length_eq.symm).symm

theorem erase_signatures {list : List Entry} (hd : (records.map (·.signature)).Nodup)
    (hl : ∀ e ∈ list, e ∈ records) :
    records.erase (list.map (·.signature)) = records.filter fun e => !list.contains e := by
  refine List.filter_congr fun e he => ?_
  rw [Bool.not_inj_iff, Bool.eq_iff_iff, List.contains_iff_mem, List.contains_iff_mem]
  refine ⟨fun hm => ?_, List.mem_map_of_mem⟩
  obtain ⟨e', he', hs⟩ := List.mem_map.mp hm
  rwa [← List.inj_on_of_nodup_map hd (hl e' he') he hs]

/-- Sorted entries without those at the front are those of the records that are left. -/
theorem Sorts.perm_drop {oldest : List Entry} (h : Sorts records oldest)
    (hd : (records.map (·.signature)).Nodup) (k : Nat) :
    (oldest.drop k).Perm (records.filter fun e => !(oldest.take k).contains e) := by
  have hnodup : (oldest.take k ++ oldest.drop k).Nodup := by
    rw [List.take_append_drop]
    exact h.perm.nodup_iff.mpr (List.Nodup.of_map _ hd)
  have hsplit : oldest.filter (fun e => !(oldest.take k).contains e) = oldest.drop k := by
    have hfilter := List.filter_append (p := fun e => !(oldest.take k).contains e) (oldest.take k)
      (oldest.drop k)
    rw [List.take_append_drop] at hfilter
    rw [hfilter, List.filter_eq_nil_iff.mpr (by simp), List.nil_append, List.filter_eq_self]
    intro e he
    simpa using fun he' => List.disjoint_of_nodup_append hnodup he' he
  rw [← hsplit]
  exact h.perm.filter _

theorem totalBytes_of_sizes (hs : ∀ e ∈ records, e.sizeBytes = .ofNat (size e))
    (hb : (records.map size).sum ≤ 2 ^ 53) : records.totalBytes = .ofNat (records.map size).sum := by
  have hsum (n : Nat) (hn : n + (records.map size).sum ≤ 2 ^ 53) :
      records.foldl (fun total e => total + e.sizeBytes) (.ofNat n) =
        .ofNat (n + (records.map size).sum) := by
    clear hb
    induction records generalizing n with
    | nil => rfl
    | cons e rest ih =>
        rw [List.map_cons, List.sum_cons] at hn ⊢
        rw [List.foldl_cons, hs e List.mem_cons_self, Number.ofNat_add_ofNat (by omega),
          ih (fun e' he' => hs e' (List.mem_cons_of_mem _ he')) _ (by omega), Nat.add_assoc]
  have hzero := hsum 0 (by rwa [Nat.zero_add])
  rwa [Nat.zero_add] at hzero

/-- The least number of entries at the front of a list without which the rest is within a target. -/
structure Shortest (size : Entry → Nat) (target : Number) (list : List Entry) (k : Nat) : Prop where
  le : k ≤ list.length
  within : Number.atMost (.ofNat ((list.drop k).map size).sum) target = true
  least : ∀ j < k, Number.atMost (.ofNat ((list.drop j).map size).sum) target = false

end Records

namespace Cache

open Records

variable {cache : Cache} {list : List Entry} {size : Entry → Nat} {target : Number} {limit : Rat}

theorem victims_shortest (hs : ∀ e ∈ list, e.sizeBytes = .ofNat (size e))
    (hb : (list.map size).sum ≤ 2 ^ 53) (hzero : Number.atMost 0 target = true) :
    ∃ k, victims target list (.ofNat (list.map size).sum) = list.take k ∧
      Shortest size target list k := by
  induction list with
  | nil => exact ⟨0, rfl, le_rfl, hzero, fun j hj => absurd hj (Nat.not_lt_zero j)⟩
  | cons e rest ih =>
      rw [victims]
      by_cases hdone : Number.atMost (.ofNat ((e :: rest).map size).sum) target = true
      · exact ⟨0, if_pos hdone, Nat.zero_le _, hdone, fun j hj => absurd hj (Nat.not_lt_zero j)⟩
      · rw [List.map_cons, List.sum_cons] at hb
        obtain ⟨k, hk, hshort⟩ := ih (fun e' he' => hs e' (List.mem_cons_of_mem _ he')) (by omega)
        have hrest : Number.ofNat ((e :: rest).map size).sum - e.sizeBytes =
            .ofNat (rest.map size).sum := by
          rw [hs e List.mem_cons_self, List.map_cons, List.sum_cons,
            Number.ofNat_sub_ofNat (Nat.le_add_right _ _) hb, Nat.add_sub_cancel_left]
        refine ⟨k + 1, ?_, Nat.succ_le_succ hshort.le, hshort.within, fun j hj => ?_⟩
        · rw [if_neg hdone, hrest, hk, List.take_succ_cons]
        · cases j with
          | zero => exact Bool.eq_false_iff.mpr hdone
          | succ j => exact hshort.least j (Nat.lt_of_succ_lt_succ hj)

/-- The most bytes that a cache keeps. -/
def maxBytes (cache : Cache) : Number := cache.settings.maxSizeMB * bytesPerMB

/-- What is over a limit that is not negative is over the target as well, which is no larger. -/
theorem target_of_over {total : Number} (hlimit : cache.settings.maxSizeMB = .finite limit)
    (hpos : 0 ≤ limit) (htotal : total.isFinite = true)
    (hover : Number.atMost total cache.maxBytes = false) :
    Number.atMost 0 (cache.maxBytes * evictionTarget) = true ∧
      ∀ n : Nat, n ≤ 2 ^ 53 → Number.atMost (.ofNat n) (cache.maxBytes * evictionTarget) = true →
        Number.atMost (.ofNat n) cache.maxBytes = true := by
  have hmega : bytesPerMB = .finite (1048576 : Nat) :=
    Number.ofNat_of_le (n := 1048576) (by decide)
  have hproduct : cache.maxBytes = .ofRat (limit * (1048576 : Nat)) := by
    rw [maxBytes, hlimit, hmega]
    rfl
  obtain ⟨t, ht, ht₀, ht₁⟩ : ∃ t, evictionTarget = .finite t ∧ 0 ≤ t ∧ t ≤ 1 :=
    Number.Fits.ofRat_le ⟨one_pos, Number.ofNat_of_le (n := 1) (by decide)⟩ (by norm_num) (by norm_num)
  rw [hproduct] at hover ⊢
  rcases Number.ofRat_nonneg (q := limit * (1048576 : Nat)) (by positivity) with hinf | ⟨m, hm, hm₀⟩
  · -- Nothing is over an infinite limit.
    rw [hinf] at hover
    cases total with
    | finite q => cases hover
    | nan => cases htotal
    | infinite negative => cases htotal
  · obtain ⟨r, hr, hr₀, hle⟩ := Number.mul_share (Number.isRounded_ofRat _ m hm) hm₀ ht₀ ht₁
    rw [hm, ht, hr]
    refine ⟨Number.atMost_finite.mpr hr₀, fun n hn hwithin => ?_⟩
    rw [Number.ofNat_of_le hn, Number.atMost_finite] at hwithin ⊢
    exact hwithin.trans hle

end Cache

end ScriptPack

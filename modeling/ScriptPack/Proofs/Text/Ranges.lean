import Mathlib.Data.List.Chain
import Mathlib.Data.List.GetD
import Mathlib.Order.Nat
import ScriptPack.Text.Identifier

/-!
Tables of code points. What a binary search finds in a sorted table is what its ranges say
(`Ranges.contains_eq`), and ranges are compared one after the other (`within_of_covers`): every letter
that may begin an identifier may also stand inside one.
-/

namespace ScriptPack.Text

/-- Whether a code point is in one of the ranges that bounds give: each of them goes from a bound in an
even place up to the next one. -/
def within (c : Nat) : List Nat → Bool
  | [] => false
  | [low] => decide (low ≤ c)
  | low :: high :: bounds => (decide (low ≤ c) && decide (c < high)) || within c bounds

variable {c low high : Nat} {bounds outer inner : List Nat}

theorem countP_eq_zero_of_lt (h : ∀ bound ∈ bounds, c < bound) : bounds.countP (· ≤ c) = 0 := by
  rw [List.countP_eq_zero]
  intro bound hbound
  simpa using h bound hbound

theorem countP_le_odd (hs : bounds.Pairwise (· < ·)) :
    (bounds.countP (· ≤ c) % 2 == 1) = within c bounds := by
  induction bounds using within.induct with
  | case1 => rfl
  | case2 low =>
      by_cases hlow : low ≤ c <;> simp [within, hlow]
  | case3 low high bounds ih =>
      obtain ⟨hlow, hs⟩ := List.pairwise_cons.mp hs
      obtain ⟨hhigh, hs⟩ := List.pairwise_cons.mp hs
      have hlt := hlow high List.mem_cons_self
      rw [within, ← ih hs, List.countP_cons, List.countP_cons]
      by_cases hc : high ≤ c
      · simp [hc, hlt.le.trans hc, Nat.not_lt.mpr hc, Nat.add_assoc]
      · have hrest : bounds.countP (· ≤ c) = 0 :=
          countP_eq_zero_of_lt fun bound hbound => (Nat.lt_of_not_le hc).trans (hhigh bound hbound)
        by_cases hc' : low ≤ c <;> simp [hrest, hc, hc', Nat.lt_of_not_le hc]

namespace Ranges

variable {r : Ranges}

/-- The bounds are in order. -/
def IsSorted (r : Ranges) : Prop := r.bounds.toList.Pairwise (· < ·)

theorem countP_of_split {k : Nat} (hk : k ≤ bounds.length)
    (hbelow : ∀ i < k, bounds.getD i 0 ≤ c)
    (habove : ∀ i, k ≤ i → i < bounds.length → c < bounds.getD i 0) :
    bounds.countP (· ≤ c) = k := by
  induction bounds generalizing k with
  | nil => exact (Nat.le_zero.mp hk).symm
  | cons bound bounds ih =>
      cases k with
      | zero =>
          refine countP_eq_zero_of_lt fun other hother => ?_
          obtain ⟨i, hi, rfl⟩ := List.getElem_of_mem hother
          have hlt := habove i (Nat.zero_le i) hi
          rwa [List.getD_eq_getElem _ _ hi] at hlt
      | succ k =>
          have hbound : bound ≤ c := hbelow 0 (Nat.succ_pos k)
          rw [List.countP_cons, ih (Nat.le_of_succ_le_succ hk)
            (fun i hi => hbelow (i + 1) (Nat.succ_lt_succ hi))
            (fun i hi hlt => habove (i + 1) (Nat.succ_le_succ hi) (Nat.succ_lt_succ hlt))]
          simp [hbound]

theorem IsSorted.getD_le (hs : r.IsSorted) {i j : Nat} (hij : i ≤ j) (hj : j < r.bounds.size) :
    r.bounds.getD i 0 ≤ r.bounds.getD j 0 := by
  rcases Nat.lt_or_eq_of_le hij with hlt | rfl
  · have hpair := List.pairwise_iff_getElem.mp hs i j (hlt.trans hj) hj hlt
    simp only [Array.getElem_toList] at hpair
    simpa [Array.getD_eq_getD_getElem?, hlt.trans hj, hj] using hpair.le
  · exact Nat.le_refl _

/-- The search closes in on the number of bounds at or below the code point. -/
theorem countFrom_eq (hs : r.IsSorted) (hle : low ≤ high) (hhigh : high ≤ r.bounds.size)
    (hbelow : ∀ i < low, r.bounds.getD i 0 ≤ c)
    (habove : ∀ i, high ≤ i → i < r.bounds.size → c < r.bounds.getD i 0) :
    r.countFrom c low high = r.bounds.toList.countP (· ≤ c) := by
  induction low, high using countFrom.induct r c with
  | case1 low high hlt middle hmiddle ih =>
      have hm : middle < high := by omega
      rw [countFrom, if_pos hlt, if_pos hmiddle]
      refine ih hm hhigh (fun i hi => ?_) habove
      exact (hs.getD_le (Nat.le_of_lt_succ hi) (hm.trans_le hhigh)).trans hmiddle
  | case2 low high hlt middle hmiddle ih =>
      have hm : middle < high := by omega
      rw [countFrom, if_pos hlt, if_neg hmiddle]
      refine ih (by omega) (hm.le.trans hhigh) hbelow fun i hi hsize => ?_
      exact (Nat.lt_of_not_le hmiddle).trans_le (hs.getD_le hi hsize)
  | case3 low high hlt =>
      obtain rfl : low = high := by omega
      rw [countFrom, if_neg hlt]
      refine (countP_of_split (by simpa using hhigh) (fun i hi => ?_) fun i hi hsize => ?_).symm
      · simpa [Array.getD_eq_getD_getElem?] using hbelow i hi
      · simpa [Array.getD_eq_getD_getElem?] using habove i hi (by simpa using hsize)

theorem contains_eq (hs : r.IsSorted) (c : Nat) : r.contains c = within c r.bounds.toList := by
  rw [contains, countFrom_eq hs (Nat.zero_le _) (Nat.le_refl _) (by simp) (fun i hi hlt => by omega),
    countP_le_odd hs]

end Ranges

/-! ### Ranges in ranges -/

/-- The ranges without those at their front that lie in a given one. -/
def dropInside (low high : Nat) : List Nat → List Nat
  | low' :: high' :: inner =>
    if low ≤ low' ∧ high' ≤ high then dropInside low high inner else low' :: high' :: inner
  | inner => inner

/-- Whether ranges lie in ranges of another row, when both are gone through once. -/
def covers : List Nat → List Nat → Bool
  | low :: high :: outer, inner => covers outer (dropInside low high inner)
  | _, inner => inner.isEmpty

theorem within_dropInside (h : within c inner = true) :
    low ≤ c ∧ c < high ∨ within c (dropInside low high inner) = true := by
  induction inner using dropInside.induct low high with
  | case1 low' high' inner hin ih =>
      rw [dropInside, if_pos hin]
      rw [within, Bool.or_eq_true, Bool.and_eq_true, decide_eq_true_iff, decide_eq_true_iff] at h
      rcases h with ⟨hlow, hhigh⟩ | h
      · exact .inl ⟨hin.1.trans hlow, hhigh.trans_le hin.2⟩
      · exact ih h
  | case2 low' high' inner hin =>
      rw [dropInside, if_neg hin]
      exact .inr h
  | case3 inner hshort =>
      rw [dropInside]
      · exact .inr h
      · exact hshort

theorem within_of_covers (hcovers : covers outer inner = true) (h : within c inner = true) :
    within c outer = true := by
  have hnil {bounds : List Nat} (hempty : inner.isEmpty = true) : within c bounds = true := by
    rw [List.isEmpty_iff] at hempty
    rw [hempty] at h
    cases h
  induction outer using within.induct generalizing inner with
  | case1 => exact hnil hcovers
  | case2 low => exact hnil hcovers
  | case3 low high outer ih =>
      rw [within, Bool.or_eq_true, Bool.and_eq_true, decide_eq_true_iff, decide_eq_true_iff]
      refine (within_dropInside h).imp_right fun hrest => ih hcovers hrest fun hempty => ?_
      rw [List.isEmpty_iff] at hempty
      rw [hempty] at hrest
      cases hrest

/-! ### Identifiers -/

theorem identifierStarts_sorted : identifierStarts.IsSorted :=
  List.isChain_iff_pairwise.mp (by decide +kernel)

theorem identifierContinues_sorted : identifierContinues.IsSorted :=
  List.isChain_iff_pairwise.mp (by decide +kernel)

theorem isIdentifierStart_eq (c : Char) : isIdentifierStart c =
    if c.toNat < 0x80 then c.isAlpha || c == '_'
    else within c.toNat identifierStarts.bounds.toList := by
  rw [isIdentifierStart, Ranges.contains_eq identifierStarts_sorted]

theorem isIdentifierContinue_eq (c : Char) : isIdentifierContinue c =
    if c.toNat < 0x80 then c.isAlphanum || c == '_'
    else within c.toNat identifierContinues.bounds.toList := by
  rw [isIdentifierContinue, Ranges.contains_eq identifierContinues_sorted]

/-- What may begin an identifier may stand inside one. -/
theorem isIdentifierContinue_of_isIdentifierStart {c : Char} (h : isIdentifierStart c = true) :
    isIdentifierContinue c = true := by
  rw [isIdentifierStart_eq] at h
  rw [isIdentifierContinue_eq]
  split
  · rename_i hascii
    rw [if_pos hascii, Bool.or_eq_true] at h
    rw [Bool.or_eq_true, Char.isAlphanum, Bool.or_eq_true]
    exact h.imp_left .inl
  · rename_i hascii
    rw [if_neg hascii] at h
    exact within_of_covers (by decide +kernel) h

end ScriptPack.Text

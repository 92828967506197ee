import Mathlib.Tactic.NormNum
import ScriptPack.Number.Decimal
import ScriptPack.Proofs.Number.Rounding

/-!
Decimal digits of numbers. The shortest digits of a number read back as that number: if a grid has a
neighbour that reads back, that is taken, and on the last grid every neighbour is close enough.
-/

namespace ScriptPack.Number

variable {q r : Rat} {n : Nat} {e : Int}

/-- A positive rational that is a number. -/
def Fits (q : Rat) : Prop := 0 < q ∧ ofRat q = finite q

theorem powerOfTen_eq (e : Int) : powerOfTen e = (10 : Rat) ^ e := by
  rw [powerOfTen]
  split
  · rename_i he
    obtain ⟨k, rfl⟩ := Int.eq_ofNat_of_zero_le he
    simp
  · rename_i he
    obtain ⟨k, hk⟩ := Int.eq_ofNat_of_zero_le (a := -e) (by omega)
    rw [hk, Int.toNat_natCast, Rat.mkRat_eq_div, ← neg_neg e, hk, zpow_neg, zpow_natCast]
    simp

theorem powerOfTen_pos (e : Int) : 0 < powerOfTen e := by
  rw [powerOfTen_eq]
  positivity

theorem powerOfTen_le {e e' : Int} (h : e ≤ e') : powerOfTen e ≤ powerOfTen e' := by
  rw [powerOfTen_eq, powerOfTen_eq]
  exact zpow_le_zpow_right₀ (by norm_num) h

theorem lt_of_powerOfTen_lt {e e' : Int} (h : powerOfTen e < powerOfTen e') : e < e' := by
  by_contra hle
  exact absurd h (not_lt.mpr (powerOfTen_le (not_lt.mp hle)))

theorem powerOfTen_length (h : n ≠ 0) :
    powerOfTen ((Nat.toDigits 10 n).length - 1) ≤ n ∧ n < powerOfTen (Nat.toDigits 10 n).length := by
  have hpos : 0 < (Nat.toDigits 10 n).length := Nat.length_toDigits_pos
  obtain ⟨k, hk⟩ : ∃ k, (Nat.toDigits 10 n).length = k + 1 := ⟨_, (Nat.sub_add_cancel hpos).symm⟩
  rw [hk, powerOfTen_eq, powerOfTen_eq]
  have hlt : n < 10 ^ (k + 1) := by
    rw [← Nat.length_toDigits_le_iff (by decide) (by omega), hk]
  have hge : 10 ^ k ≤ n := by
    rcases Nat.eq_zero_or_pos k with rfl | hk'
    · simpa using Nat.one_le_iff_ne_zero.mpr h
    · by_contra hlow
      have hle := (Nat.length_toDigits_le_iff (by decide) hk').mpr (not_le.mp hlow)
      omega
  constructor
  · push_cast
    rw [add_sub_cancel_right, zpow_natCast]
    exact_mod_cast hge
  · rw [zpow_natCast]
    exact_mod_cast hlt

theorem decimalExponent_spec (h : 0 < q) :
    powerOfTen (decimalExponent q) ≤ q ∧ q < powerOfTen (decimalExponent q + 1) := by
  have hn : q.num.natAbs ≠ 0 := Int.natAbs_ne_zero.mpr (Rat.num_ne_zero.mpr h.ne')
  have hexp {n : Nat} (hn : n ≠ 0) : (10 : Rat) ^ ((Nat.toDigits 10 n).length - 1 : Int) ≤ n ∧
      (n : Rat) < 10 ^ ((Nat.toDigits 10 n).length - 1 + 1 : Int) := by
    rw [sub_add_cancel, ← powerOfTen_eq, ← powerOfTen_eq]
    exact powerOfTen_length hn
  have hguess := zpow_le_div (by norm_num) (hexp hn) (hexp q.den_nz)
  rw [natAbs_num_div_den h, sub_sub_sub_cancel_right, ← powerOfTen_eq, ← powerOfTen_eq] at hguess
  rw [decimalExponent]
  simp only
  split
  · rename_i hlt
    rw [sub_add_cancel]
    exact ⟨hguess.1, hlt⟩
  · rename_i hle
    exact ⟨not_lt.mp hle, hguess.2⟩

/-! ### Numbers close to a number -/

namespace Fits

/-- A number is a multiple of its last place. -/
theorem exists_multiple (h : Fits q) :
    ∃ k : Int, q = k * powerOfTwo (lastPlace q) ∧ q < powerOfTwo 1024 := by
  have habs : q.abs = q := Rat.abs_of_nonneg h.1.le
  have hq := h.2
  rw [ofRat, if_neg h.1.ne', habs] at hq
  simp only [if_neg (not_lt.mpr h.1.le)] at hq
  split at hq
  · cases hq
  · rename_i hb
    rw [finite.injEq] at hq
    refine ⟨_, hq.symm, ?_⟩
    rw [hq] at hb
    exact not_le.mp hb

/-- Above a number and below the next power of two there is room for a last place. -/
theorem add_lastPlace_le (h : Fits q) :
    q + powerOfTwo (lastPlace q) ≤ powerOfTwo (binaryExponent q + 1) := by
  obtain ⟨k, hk, -⟩ := h.exists_multiple
  obtain ⟨-, hlt⟩ := binaryExponent_spec h.1
  have hpos := powerOfTwo_pos (lastPlace q)
  -- Both are multiples of the last place, the power of two because the number is at least one.
  have hle : lastPlace q ≤ binaryExponent q + 1 := by
    have hk₁ : (1 : Rat) ≤ k := by
      have hk₀ : (0 : Rat) < k := pos_of_mul_pos_left (hk ▸ h.1) hpos.le
      exact_mod_cast hk₀
    have hplace : powerOfTwo (lastPlace q) ≤ q :=
      (le_mul_of_one_le_left hpos.le hk₁).trans_eq hk.symm
    exact (lt_of_powerOfTwo_lt (hplace.trans_lt hlt)).le
  obtain ⟨d, hd⟩ := Int.eq_ofNat_of_zero_le (sub_nonneg.mpr hle)
  have hpower : powerOfTwo (binaryExponent q + 1) = (2 ^ d : Int) * powerOfTwo (lastPlace q) := by
    rw [powerOfTwo_eq, powerOfTwo_eq, ← sub_add_cancel (binaryExponent q + 1) (lastPlace q), hd,
      zpow_add₀ two_ne_zero, zpow_natCast]
    push_cast
    rfl
  rw [hpower] at hlt ⊢
  nth_rewrite 1 [hk] at hlt ⊢
  have hk' : k + 1 ≤ 2 ^ d := by
    have hklt := lt_of_mul_lt_mul_right hlt hpos.le
    exact_mod_cast hklt
  calc k * powerOfTwo (lastPlace q) + powerOfTwo (lastPlace q)
      = ((k + 1 : Int) : Rat) * powerOfTwo (lastPlace q) := by push_cast; ring
    _ ≤ (2 ^ d : Int) * powerOfTwo (lastPlace q) := by
      gcongr

/-- What differs from a number by less than one part in `2 ^ 55` is rounded to it. -/
theorem ofRat_of_close (h : Fits q) (hr : |r - q| < q / 2 ^ 55) : ofRat r = finite q := by
  obtain ⟨k, hk, hb⟩ := h.exists_multiple
  obtain ⟨hlow, hhigh⟩ := binaryExponent_spec h.1
  obtain ⟨hr₁, hr₂⟩ := abs_lt.mp hr
  have hq := h.1
  have hscale (e : Int) (d : Nat) : powerOfTwo (e - d) = powerOfTwo e / 2 ^ d := by
    rw [powerOfTwo_eq, powerOfTwo_eq, zpow_sub₀ two_ne_zero, zpow_natCast]
  have hsmall : q / 2 ^ 55 < powerOfTwo (binaryExponent q - 54) := by
    have hnext := hscale (binaryExponent q + 1) 55
    rw [show binaryExponent q + 1 - (55 : Nat) = binaryExponent q - 54 by push_cast; ring] at hnext
    rw [hnext]
    gcongr
  have hrpos : 0 < r := by
    have hle : q / 2 ^ 55 ≤ q := div_le_self hq.le (by norm_num)
    linarith
  have hhalf : powerOfTwo (binaryExponent q - 1) ≤ r := by
    have hnext := hscale (binaryExponent q) 1
    rw [Nat.cast_one] at hnext
    rw [hnext]
    have hle : q / 2 ^ 55 ≤ q / 2 := by gcongr; norm_num
    linarith
  have htop : r < powerOfTwo (binaryExponent q + 1) := by
    have hadd := h.add_lastPlace_le
    have hplace : powerOfTwo (binaryExponent q - 54) ≤ powerOfTwo (lastPlace q) :=
      powerOfTwo_le (by rw [lastPlace]; omega)
    linarith
  -- The exponent of `r` is that of the number or one less, so that the number is a multiple of the
  -- last place of `r` too.
  obtain ⟨hl, hh⟩ := binaryExponent_spec hrpos
  have hexp : binaryExponent q - 1 ≤ binaryExponent r ∧ binaryExponent r ≤ binaryExponent q := by
    have h₁ := lt_of_powerOfTwo_lt (hhalf.trans_lt hh)
    have h₂ := lt_of_powerOfTwo_lt (hl.trans_lt htop)
    omega
  obtain ⟨d, hd⟩ := Int.eq_ofNat_of_zero_le (a := lastPlace q - lastPlace r)
    (by rw [lastPlace, lastPlace]; omega)
  have hmultiple : q = (k * 2 ^ d : Int) * powerOfTwo (lastPlace r) := by
    nth_rewrite 1 [hk]
    rw [powerOfTwo_eq, powerOfTwo_eq, ← sub_add_cancel (lastPlace q) (lastPlace r), hd,
      zpow_add₀ two_ne_zero, zpow_natCast]
    push_cast
    ring
  refine ofRat_near hrpos hmultiple ?_ hb
  have hlast : powerOfTwo (binaryExponent q - 54) ≤ powerOfTwo (lastPlace r - 1) :=
    powerOfTwo_le (by rw [lastPlace]; omega)
  have hnext := hscale (lastPlace r) 1
  rw [Nat.cast_one, pow_one] at hnext
  rw [← hnext]
  linarith

end Fits

/-! ### The shortest digits -/

/-- Digits that read back as a number. They may stand for more than the number, but not for more
than twice as much, and their last place is not far below the first one. -/
structure Spells (q : Rat) (found : Digits) : Prop where
  readsBack : ofRat (found.digits * powerOfTen found.exponent) = finite q
  le : found.digits * powerOfTen found.exponent ≤ 2 * q
  exponent : decimalExponent q - 17 ≤ found.exponent

/-- A neighbour of a number on a grid that is not too coarse. -/
theorem spells_of_neighbour {c : Int} (hq : 0 < q) (he : e ≤ decimalExponent q)
    (he' : decimalExponent q - 17 ≤ e)
    (hc : c = (q / powerOfTen e).floor ∨ c = (q / powerOfTen e).floor + 1)
    (hr : ofRat (c * powerOfTen e) = finite q) : Spells q ⟨c.toNat, e⟩ := by
  have hpos := powerOfTen_pos e
  have hfloor : (q / powerOfTen e).floor = ⌊q / powerOfTen e⌋ := rfl
  have hlow : 0 ≤ ⌊q / powerOfTen e⌋ := Int.floor_nonneg.mpr (div_nonneg hq.le hpos.le)
  have hnat : ((c.toNat : Nat) : Rat) = c := by
    have hc₀ : ((c.toNat : Nat) : Int) = c := Int.toNat_of_nonneg (by omega)
    exact_mod_cast hc₀
  refine ⟨by rw [hnat]; exact hr, ?_, he'⟩
  have hle : (c : Rat) ≤ q / powerOfTen e + 1 := by
    have hfl := Int.floor_le (q / powerOfTen e)
    rcases hc with rfl | rfl <;> rw [hfloor] <;> push_cast <;> linarith
  have hgrid : powerOfTen e ≤ q := (powerOfTen_le he).trans (decimalExponent_spec hq).1
  rw [hnat]
  calc (c : Rat) * powerOfTen e ≤ (q / powerOfTen e + 1) * powerOfTen e := by gcongr
    _ = q + powerOfTen e := by rw [add_mul, div_mul_cancel₀ _ hpos.ne', one_mul]
    _ ≤ 2 * q := by linarith

theorem filter_pair {α : Type} {p : α → Bool} {a b : α} (hnone : [a, b].filter p = [] → False)
    (hone : ∀ c, [a, b].filter p = [c] → False) : p a = true ∧ p b = true := by
  cases ha : p a <;> cases hb : p b <;> simp [ha, hb] at hnone hone ⊢

theorem spells_of_onGrid? {d : Nat} (hq : 0 < q) (he : e ≤ decimalExponent q)
    (he' : decimalExponent q - 17 ≤ e) (h : onGrid? q e = some d) : Spells q ⟨d, e⟩ := by
  have hof {c : Int} (hc : c ∈ [(q / powerOfTen e).floor, (q / powerOfTen e).floor + 1].filter
      fun c : Int => readsBack q (c * powerOfTen e)) : Spells q ⟨c.toNat, e⟩ := by
    rw [List.mem_filter, readsBack, beq_iff_eq] at hc
    exact spells_of_neighbour hq he he' (by simpa using hc.1) hc.2
  rw [onGrid?] at h
  split at h
  · cases h
  · rename_i c heq
    cases h
    exact hof (heq ▸ List.mem_singleton_self c)
  · rename_i hnone hone
    cases h
    obtain ⟨hlow, hhigh⟩ := filter_pair hnone hone
    refine hof (List.mem_filter.mpr ?_)
    rcases roundHalfEven_cases (q / powerOfTen e) with hround | hround
    · rw [hround]
      exact ⟨by simp, hlow⟩
    · rw [hround]
      exact ⟨by simp, hhigh⟩

/-- On the last grid the nearest multiple is close enough. -/
theorem Fits.spells_last (h : Fits q) :
    Spells q ⟨(roundHalfEven (q / powerOfTen (decimalExponent q - 17))).toNat,
      decimalExponent q - 17⟩ := by
  have hpos := powerOfTen_pos (decimalExponent q - 17)
  refine spells_of_neighbour h.1 (by omega) le_rfl (roundHalfEven_cases _) (h.ofRat_of_close ?_)
  have hnear := abs_sub_roundHalfEven_le (q / powerOfTen (decimalExponent q - 17))
  generalize roundHalfEven (q / powerOfTen (decimalExponent q - 17)) = k at hnear
  have hscale : powerOfTen (decimalExponent q - 17) ≤ q / 10 ^ 17 := by
    rw [powerOfTen_eq, zpow_sub₀ (by norm_num), ← powerOfTen_eq]
    have hlow := (decimalExponent_spec h.1).1
    norm_cast
    gcongr
  have hdiff : k * powerOfTen (decimalExponent q - 17) - q =
      -(q / powerOfTen (decimalExponent q - 17) - k) * powerOfTen (decimalExponent q - 17) := by
    rw [neg_sub, sub_mul, div_mul_cancel₀ _ hpos.ne']
  rw [hdiff, abs_mul, abs_neg, abs_of_pos hpos]
  calc |q / powerOfTen (decimalExponent q - 17) - k| * powerOfTen (decimalExponent q - 17)
      ≤ 1 / 2 * (q / 10 ^ 17) := by gcongr
    _ < q / 2 ^ 55 := by
      have hq := h.1
      rw [show (1 : Rat) / 2 * (q / 10 ^ 17) = q / (2 * 10 ^ 17) by ring]
      gcongr
      norm_num

theorem Fits.spells_shortestFrom (h : Fits q) {fuel count : Nat} (hf : fuel + count = 17) :
    Spells q (shortestFrom q (decimalExponent q) fuel count) := by
  induction fuel generalizing count with
  | zero =>
      obtain rfl : count = 17 := by omega
      exact h.spells_last
  | succ fuel ih =>
      rw [shortestFrom]
      split
      · rename_i digits hd
        exact spells_of_onGrid? h.1 (by omega) (by omega) hd
      · exact ih (by omega)

theorem Fits.spells_shortest (h : Fits q) : Spells q (shortest q) :=
  h.spells_shortestFrom rfl

/-- Numbers are far from the exponents at which digits are cut off. -/
theorem Fits.between (h : Fits q) : powerOfTen (-330) ≤ q ∧ q < powerOfTen 309 := by
  obtain ⟨k, hk, hb⟩ := h.exists_multiple
  constructor
  · have hpos := powerOfTwo_pos (lastPlace q)
    have hk₁ : (1 : Rat) ≤ k := by
      have hk₀ : (0 : Rat) < k := pos_of_mul_pos_left (hk ▸ h.1) hpos.le
      exact_mod_cast hk₀
    have hleast : powerOfTwo (-1074) ≤ powerOfTwo (lastPlace q) :=
      powerOfTwo_le (by rw [lastPlace]; omega)
    have hpowers : (2 : Rat) ^ 1074 ≤ 10 ^ 330 := by
      have hnat : 2 ^ 1074 ≤ 10 ^ 330 := by decide +kernel
      exact_mod_cast hnat
    calc powerOfTen (-330) ≤ powerOfTwo (-1074) := by
          rw [powerOfTen_eq, powerOfTwo_eq, zpow_neg, zpow_neg]
          exact inv_anti₀ (by positivity) (by exact_mod_cast hpowers)
      _ ≤ powerOfTwo (lastPlace q) := hleast
      _ ≤ k * powerOfTwo (lastPlace q) := le_mul_of_one_le_left hpos.le hk₁
      _ = q := hk.symm
  · have hpowers : (2 : Rat) ^ 1024 < 10 ^ 309 := by
      have hnat : 2 ^ 1024 < 10 ^ 309 := by decide +kernel
      exact_mod_cast hnat
    refine hb.trans ?_
    rw [powerOfTen_eq, powerOfTwo_eq]
    exact_mod_cast hpowers

/-- Digits whose value is not out of reach are not cut off. -/
theorem ofDigits_eq {d : Nat} (hd : d ≠ 0) (hlow : powerOfTen (-400) ≤ d * powerOfTen e)
    (hhigh : d * powerOfTen e < powerOfTen 400) :
    ofDigits false d e = ofRat (d * powerOfTen e) := by
  obtain ⟨hl, hh⟩ := powerOfTen_length hd
  have hpos := powerOfTen_pos e
  have hadd (a : Int) : powerOfTen a * powerOfTen e = powerOfTen (a + e) := by
    rw [powerOfTen_eq, powerOfTen_eq, powerOfTen_eq, zpow_add₀ (by norm_num)]
  have hsmall : -400 < ((Nat.toDigits 10 d).length : Int) + e := by
    refine lt_of_powerOfTen_lt (hlow.trans_lt ?_)
    rw [← hadd]
    gcongr
  have hlarge : ((Nat.toDigits 10 d).length : Int) - 1 + e < 400 := by
    refine lt_of_powerOfTen_lt (lt_of_le_of_lt ?_ hhigh)
    rw [← hadd]
    gcongr
  rw [ofDigits]
  simp only [Bool.false_eq_true, if_false]
  rw [if_neg, if_neg (by omega)]
  simp only [Bool.or_eq_true, decide_eq_true_eq, not_or]
  exact ⟨hd, by omega⟩

theorem Spells.digits_ne_zero {found : Digits} (hs : Spells q found) (h : Fits q) :
    found.digits ≠ 0 := by
  intro hzero
  have hread := hs.readsBack
  rw [hzero, Nat.cast_zero, zero_mul, ofRat, if_pos rfl, finite.injEq] at hread
  exact h.1.ne hread

/-- Other digits with the value of the shortest ones stand for the number too. -/
theorem Spells.ofDigits {found : Digits} (hs : Spells q found) (h : Fits q) {d : Nat}
    (hv : d * powerOfTen e = found.digits * powerOfTen found.exponent) :
    ofDigits false d e = finite q := by
  have hpos := powerOfTen_pos found.exponent
  obtain ⟨hlow, hhigh⟩ := h.between
  have hn : (1 : Rat) ≤ found.digits := by
    exact_mod_cast Nat.one_le_iff_ne_zero.mpr (hs.digits_ne_zero h)
  have hd : d ≠ 0 := by
    rintro rfl
    rw [Nat.cast_zero, zero_mul] at hv
    have hne : (found.digits : Rat) ≠ 0 := by
      exact_mod_cast hs.digits_ne_zero h
    exact mul_ne_zero hne hpos.ne' hv.symm
  rw [ofDigits_eq hd, hv, hs.readsBack]
  · have hexp : -400 ≤ found.exponent := by
      have hfirst := (decimalExponent_spec h.1).2
      have hlt := lt_of_powerOfTen_lt (hlow.trans_lt hfirst)
      have hlast := hs.exponent
      omega
    rw [hv]
    exact (powerOfTen_le hexp).trans (le_mul_of_one_le_left hpos.le hn)
  · rw [hv]
    have hten : powerOfTen 310 = powerOfTen 309 * 10 := by
      rw [powerOfTen_eq, powerOfTen_eq, ← zpow_add_one₀ (by norm_num)]
      rfl
    refine (hs.le.trans_lt ?_).trans_le (powerOfTen_le (by decide : (310 : Int) ≤ 400))
    linarith [powerOfTen_pos 309]

end ScriptPack.Number

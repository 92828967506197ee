import ScriptPack.Proofs.Number.Decimal
import ScriptPack.Proofs.Number.Text

/-!
How large rounded numbers are. Rounding doubles a number at most; a number that is not small can be
divided by a power of two and multiplied again without a loss, and one that is not large either is
written without an exponent.
-/

namespace ScriptPack.Number

variable {q r : Rat} {m n d : Nat}

theorem roundHalfEven_le_two_mul (h : 0 ≤ q) : (roundHalfEven q : Rat) ≤ 2 * q := by
  by_cases hhalf : q < 1 / 2
  · have hzero : roundHalfEven q = 0 := by
      refine roundHalfEven_eq ?_
      rw [Int.cast_zero, sub_zero, abs_of_nonneg h]
      exact hhalf
    rw [hzero, Int.cast_zero]
    linarith
  · have hnear := (abs_le.mp (abs_sub_roundHalfEven_le q)).1
    linarith

theorem abs_le_two_mul_of_ofRat (h : ofRat q = finite r) : |r| ≤ 2 * |q| := by
  have habs : q.abs = |q| := by
    rcases le_total 0 q with hq | hq
    · rw [Rat.abs_of_nonneg hq, abs_of_nonneg hq]
    · rw [Rat.abs_of_nonpos hq, abs_of_nonpos hq]
  by_cases hq : q = 0
  · rw [ofRat, if_pos hq, finite.injEq] at h
    rw [← h, hq]
    simp
  rw [ofRat, if_neg hq, habs] at h
  simp only at h
  have hplace := powerOfTwo_pos (lastPlace |q|)
  have hscaled : 0 ≤ |q| / powerOfTwo (lastPlace |q|) := div_nonneg (abs_nonneg q) hplace.le
  have hround := roundHalfEven_le_two_mul hscaled
  have hlow : (0 : Rat) ≤ roundHalfEven (|q| / powerOfTwo (lastPlace |q|)) := by
    rcases roundHalfEven_cases (|q| / powerOfTwo (lastPlace |q|)) with heq | heq <;> rw [heq]
    · exact_mod_cast Int.floor_nonneg.mpr hscaled
    · exact_mod_cast (Int.floor_nonneg.mpr hscaled).trans (Int.le_add_one le_rfl)
  have hle : |(roundHalfEven (|q| / powerOfTwo (lastPlace |q|)) : Rat) *
      powerOfTwo (lastPlace |q|)| ≤ 2 * |q| := by
    rw [abs_of_nonneg (mul_nonneg hlow hplace.le)]
    calc (roundHalfEven (|q| / powerOfTwo (lastPlace |q|)) : Rat) * powerOfTwo (lastPlace |q|)
        ≤ 2 * (|q| / powerOfTwo (lastPlace |q|)) * powerOfTwo (lastPlace |q|) := by gcongr
      _ = 2 * |q| := by rw [mul_assoc, div_mul_cancel₀ _ hplace.ne']
  split at h
  · cases h
  · rw [finite.injEq] at h
    rw [← h]
    split
    · rwa [abs_neg]
    · exact hle

namespace Fits

/-- A number from one on has room for division by a power of two. -/
theorem div_powerOfTwo (h : Fits q) (hone : 1 ≤ q) (hd : d ≤ 1000) :
    ofRat (q / 2 ^ d) = finite (q / 2 ^ d) := by
  obtain ⟨k, hk, hb⟩ := h.exists_multiple
  obtain ⟨hlow, hhigh⟩ := binaryExponent_spec h.1
  have hexp : 0 < binaryExponent q + 1 := by
    refine lt_of_powerOfTwo_lt (lt_of_le_of_lt ?_ hhigh)
    rw [powerOfTwo_eq, zpow_zero]
    exact hone
  have hplace : lastPlace q = binaryExponent q - 52 := by
    rw [lastPlace]
    omega
  have hpos := powerOfTwo_pos (lastPlace q)
  have hk₀ : 0 < k := by
    have hcast : (0 : Rat) < k := pos_of_mul_pos_left (hk ▸ h.1) hpos.le
    exact_mod_cast hcast
  have hk₁ : k ≤ 2 ^ 53 := by
    have hscale : ((2 ^ 53 : Int) : Rat) * powerOfTwo (lastPlace q) =
        powerOfTwo (binaryExponent q + 1) := by
      rw [powerOfTwo_eq, powerOfTwo_eq, hplace,
        show binaryExponent q + 1 = 53 + (binaryExponent q - 52) by ring, zpow_add₀ two_ne_zero]
      norm_num
    have hlt : (k : Rat) * powerOfTwo (lastPlace q) < (2 ^ 53 : Int) * powerOfTwo (lastPlace q) := by
      rw [hscale, ← hk]
      exact hhigh
    have hcast := lt_of_mul_lt_mul_right hlt hpos.le
    exact le_of_lt (by exact_mod_cast hcast)
  obtain ⟨k, rfl⟩ := Int.eq_ofNat_of_zero_le hk₀.le
  have heq : q / 2 ^ d = k * powerOfTwo (lastPlace q - d) := by
    nth_rewrite 1 [hk]
    rw [powerOfTwo_eq, powerOfTwo_eq, zpow_sub₀ two_ne_zero, zpow_natCast, Int.cast_natCast]
    ring
  rw [heq]
  refine ofRat_of_multiple (by exact_mod_cast hk₁) (by omega) ?_
  rw [← heq]
  refine (div_le_self h.1.le ?_).trans_lt hb
  exact one_le_pow₀ one_le_two

end Fits

/-- The number for a natural number is a natural number, or too large. -/
theorem ofNat_eq_finite (h : ofNat n = finite q) : ∃ m : Nat, q = m := by
  rcases Nat.lt_or_ge (2 ^ 53) n with hn | hn
  · have hpos : (0 : Rat) < n := by
      exact_mod_cast (Nat.zero_le _).trans_lt hn
    rw [ofNat, ofRat, if_neg hpos.ne'] at h
    rw [Rat.abs_of_nonneg hpos.le] at h
    simp only [if_neg (not_lt.mpr hpos.le)] at h
    split at h
    · cases h
    · rw [finite.injEq] at h
      obtain ⟨-, hhigh⟩ := binaryExponent_spec hpos
      have hexp : 53 < binaryExponent n + 1 := by
        refine lt_of_powerOfTwo_lt (lt_trans ?_ hhigh)
        rw [powerOfTwo_eq]
        exact_mod_cast hn
      obtain ⟨p, hp⟩ := Int.eq_ofNat_of_zero_le (a := lastPlace n) (by rw [lastPlace]; omega)
      rw [hp, powerOfTwo_eq, zpow_natCast] at h
      have hscaled : (0 : Rat) ≤ n / 2 ^ p := by positivity
      have hround : 0 ≤ roundHalfEven (n / 2 ^ p) := by
        rcases roundHalfEven_cases (n / 2 ^ p) with heq | heq <;> rw [heq]
        · exact Int.floor_nonneg.mpr hscaled
        · exact (Int.floor_nonneg.mpr hscaled).trans (Int.le_add_one le_rfl)
      obtain ⟨k, hk⟩ := Int.eq_ofNat_of_zero_le hround
      refine ⟨k * 2 ^ p, ?_⟩
      rw [← h, hk]
      push_cast
      rfl
  · rw [ofNat_of_le hn, finite.injEq] at h
    exact ⟨n, h.symm⟩

theorem ofRat_of_int {k : Int} (h : |(k : Rat)| ≤ 2 ^ 53) : ofRat k = finite k := by
  have hnat : ofRat (k.natAbs : Rat) = finite (k.natAbs : Rat) := by
    refine ofNat_of_le ?_
    rw [← Int.cast_abs] at h
    have hle : |k| ≤ 2 ^ 53 := by exact_mod_cast h
    rw [Int.abs_eq_natAbs] at hle
    exact_mod_cast hle
  rcases Int.natAbs_eq k with hk | hk
  · rw [hk, Int.cast_natCast]
    exact hnat
  · rw [hk, Int.cast_neg, Int.cast_natCast, ofRat_neg, hnat]
    rfl

theorem ofNat_sub_ofNat (h : m ≤ n) (hn : n ≤ 2 ^ 53) : ofNat n - ofNat m = ofNat (n - m) := by
  have hdiff : ofNat n - ofNat m = ofRat ((n : Rat) + -m) := by
    rw [ofNat_of_le hn, ofNat_of_le (h.trans hn)]
    rfl
  rw [hdiff, ofNat, Nat.cast_sub h, sub_eq_add_neg]

theorem atMost_finite {a b : Rat} : atMost (finite a) (finite b) = true ↔ a ≤ b := by
  simp [atMost, less, le_iff_lt_or_eq]

/-! ### Rounding keeps the order -/

theorem roundHalfEven_le {k : Int} (h : q ≤ k) : roundHalfEven q ≤ k := by
  have hfloor : q.floor = ⌊q⌋ := rfl
  have hle := Int.floor_le q
  have hk : ⌊q⌋ ≤ k := by exact_mod_cast hle.trans h
  rcases hk.lt_or_eq with hlt | heq
  · rcases roundHalfEven_cases q with hr | hr <;> rw [hr, hfloor] <;> omega
  · -- The number is the integer itself.
    have hq : q = k := le_antisymm h (heq ▸ hle)
    rw [roundHalfEven_eq (k := k) (by rw [hq, sub_self, abs_zero]; norm_num)]

theorem binaryExponent_le {p : Rat} (hp : 0 < p) (h : p ≤ q) :
    binaryExponent p ≤ binaryExponent q := by
  have hlow := (binaryExponent_spec hp).1
  have hhigh := (binaryExponent_spec (hp.trans_le h)).2
  have hlt := lt_of_powerOfTwo_lt ((hlow.trans h).trans_lt hhigh)
  omega

theorem roundHalfEven_nonneg (h : 0 ≤ q) : 0 ≤ roundHalfEven q := by
  have hlow : 0 ≤ q.floor := Int.floor_nonneg.mpr h
  rcases roundHalfEven_cases q with heq | heq <;> omega

theorem ofRat_nonneg (h : 0 ≤ q) : ofRat q = infinite false ∨ ∃ r, ofRat q = finite r ∧ 0 ≤ r := by
  rcases h.eq_or_lt with rfl | hpos
  · exact .inr ⟨0, rfl, le_rfl⟩
  have hplace := powerOfTwo_pos (lastPlace q)
  rw [ofRat, if_neg hpos.ne', Rat.abs_of_nonneg h]
  simp only [if_neg (not_lt.mpr h)]
  split
  · exact .inl (by simp [h])
  · refine .inr ⟨_, rfl, mul_nonneg ?_ hplace.le⟩
    exact_mod_cast roundHalfEven_nonneg (div_nonneg h hplace.le)

/-- From `2 ^ 52` on all rounded numbers are integers. -/
theorem Fits.eq_int (h : Fits q) (hq : 2 ^ 52 ≤ q) : ∃ k : Int, q = k := by
  obtain ⟨k, hk, -⟩ := h.exists_multiple
  have hexp : 52 < binaryExponent q + 1 := by
    refine lt_of_powerOfTwo_lt (lt_of_le_of_lt ?_ (binaryExponent_spec h.1).2)
    rw [powerOfTwo_eq]
    exact_mod_cast hq
  obtain ⟨p, hp⟩ := Int.eq_ofNat_of_zero_le (a := lastPlace q) (by rw [lastPlace]; omega)
  refine ⟨k * 2 ^ p, ?_⟩
  rw [hp, powerOfTwo_eq, zpow_natCast] at hk
  rw [hk]
  push_cast
  rfl

/-- A number that is not negative goes to a natural number, or is too large for that. -/
theorem roundHalfUp_ofRat (h : 0 ≤ q) : ∃ n, (ofRat q).roundHalfUp = ofNat n := by
  rcases ofRat_nonneg h with hq | ⟨r, hq, hr⟩
  · exact ⟨2 ^ 1024, by rw [hq]; decide +kernel⟩
  have hfloor : (r + 1 / 2).floor = ⌊r + 1 / 2⌋ := rfl
  obtain ⟨n, hn⟩ := Int.eq_ofNat_of_zero_le (Int.floor_nonneg.mpr (by linarith : 0 ≤ r + 1 / 2))
  refine ⟨n, ?_⟩
  rw [hq, roundHalfUp, hfloor, hn, Int.cast_natCast]
  rcases lt_or_ge r (2 ^ 52) with hlt | hge
  · -- The integer is small.
    have hle : (⌊r + 1 / 2⌋ : Rat) ≤ 2 ^ 53 := (Int.floor_le _).trans (by linarith)
    rw [hn] at hle
    exact (ofNat_of_le (by exact_mod_cast hle)).symm
  · -- The number is an integer itself.
    have hrounded := isRounded_ofRat q r hq
    obtain ⟨k, rfl⟩ := Fits.eq_int ⟨by linarith, hrounded⟩ hge
    have hk : ⌊(k : Rat) + 1 / 2⌋ = k := by
      rw [Int.floor_eq_iff]
      constructor <;> linarith
    rw [hk] at hn
    rw [hn, Int.cast_natCast] at hrounded
    exact hrounded.symm

/-- What is no larger than a rounded number is not rounded beyond it. -/
theorem Fits.ofRat_le {p : Rat} (h : Fits q) (hp : 0 ≤ p) (hpq : p ≤ q) :
    ∃ r, ofRat p = finite r ∧ 0 ≤ r ∧ r ≤ q := by
  rcases hp.eq_or_lt with rfl | hpos
  · exact ⟨0, rfl, le_rfl, hpq⟩
  obtain ⟨k, hk, hb⟩ := h.exists_multiple
  have hplace := powerOfTwo_pos (lastPlace p)
  have hle : lastPlace p ≤ lastPlace q := by
    have hexp := binaryExponent_le hpos hpq
    simp only [lastPlace]
    omega
  -- The larger number is a multiple of the last place of the smaller one, too.
  obtain ⟨d, hd⟩ := Int.eq_ofNat_of_zero_le (sub_nonneg.mpr hle)
  have hq : q = ((k * 2 ^ d : Int) : Rat) * powerOfTwo (lastPlace p) := by
    have hscale : powerOfTwo (lastPlace q) = 2 ^ d * powerOfTwo (lastPlace p) := by
      rw [powerOfTwo_eq, powerOfTwo_eq, ← sub_add_cancel (lastPlace q) (lastPlace p), hd,
        zpow_add₀ two_ne_zero, zpow_natCast]
    rw [hk, hscale]
    push_cast
    ring
  have hround : roundHalfEven (p / powerOfTwo (lastPlace p)) ≤ k * 2 ^ d := by
    refine roundHalfEven_le ?_
    rwa [div_le_iff₀ hplace, ← hq]
  have hr : (roundHalfEven (p / powerOfTwo (lastPlace p)) : Rat) * powerOfTwo (lastPlace p) ≤ q := by
    rw [hq]
    exact mul_le_mul_of_nonneg_right (by exact_mod_cast hround) hplace.le
  refine ⟨_, ?_, mul_nonneg ?_ hplace.le, hr⟩
  · rw [ofRat, if_neg hpos.ne', Rat.abs_of_nonneg hp]
    simp only
    rw [if_neg (not_le.mpr (hr.trans_lt hb)), if_neg (not_lt.mpr hp)]
  · exact_mod_cast roundHalfEven_nonneg (div_nonneg hp hplace.le)

/-- A share of a rounded number is not larger than the number. -/
theorem mul_share {t : Rat} (hq : ofRat q = finite q) (h : 0 ≤ q) (ht : 0 ≤ t) (ht' : t ≤ 1) :
    ∃ r, finite q * finite t = finite r ∧ 0 ≤ r ∧ r ≤ q := by
  change ∃ r, ofRat (q * t) = finite r ∧ 0 ≤ r ∧ r ≤ q
  rcases h.eq_or_lt with rfl | hpos
  · rw [zero_mul]
    exact ⟨0, rfl, le_rfl, le_rfl⟩
  · exact Fits.ofRat_le ⟨hpos, hq⟩ (mul_nonneg h ht) (mul_le_of_le_one_right h ht')

/-! ### Text without an exponent -/

/-- A character of a number that is written positionally. -/
def IsPlain (c : Char) : Prop := c.isDigit = true ∨ c = '.' ∨ c = '-'

theorem isPlain_of_mem_layOut {digits : List Char} {point : Int}
    (hd : ∀ c ∈ digits, c.isDigit = true) (hlow : -6 < point) (hhigh : point ≤ 21) {c : Char}
    (h : c ∈ layOut digits point) : IsPlain c := by
  have hzero {n} (hc : c ∈ List.replicate n '0') : IsPlain c := by
    rw [(List.mem_replicate.mp hc).2]
    exact .inl rfl
  rw [layOut] at h
  split at h
  · exact (List.mem_append.mp h).elim (fun hc => .inl (hd c hc)) hzero
  rename_i hcount
  split at h
  · rcases List.mem_append.mp h with h | h
    · exact .inl (hd c (List.mem_of_mem_take h))
    · rcases List.mem_cons.mp h with rfl | h
      · exact .inr (.inl rfl)
      · exact .inl (hd c (List.mem_of_mem_drop h))
  rename_i hpoint
  have hsmall : (decide (-6 < point) && decide (point ≤ 0)) = true := by
    simp only [Bool.and_eq_true, decide_eq_true_eq] at hpoint ⊢
    omega
  rw [if_pos hsmall] at h
  rcases List.mem_cons.mp h with rfl | h
  · exact .inl rfl
  rcases List.mem_cons.mp h with rfl | h
  · exact .inr (.inl rfl)
  · exact (List.mem_append.mp h).elim hzero fun hc => .inl (hd c hc)

theorem Fits.isPlain_of_mem (h : Fits q) (hlow : 1 ≤ q) (hhigh : q ≤ 10 ^ 20) {c : Char}
    (hc : c ∈ positiveText q) : IsPlain c := by
  have hs := h.spells_shortest
  have hspelled := abs_le_two_mul_of_ofRat hs.readsBack
  have hten := powerOfTen_pos (shortest q).exponent
  have hdigits := powerOfTen_length (hs.digits_ne_zero h)
  rw [abs_of_pos h.1, abs_of_nonneg (mul_nonneg (Nat.cast_nonneg _) hten.le)] at hspelled
  have hle := hs.le
  -- The value of the digits is between a tenth and the power of ten that is written out.
  have hadd (a : Int) : powerOfTen a * powerOfTen (shortest q).exponent =
      powerOfTen (a + (shortest q).exponent) := by
    rw [powerOfTen_eq, powerOfTen_eq, powerOfTen_eq, zpow_add₀ (by norm_num)]
  have hpoint_low : -1 < (shortest q).exponent + (Nat.toDigits 10 (shortest q).digits).length := by
    refine lt_of_powerOfTen_lt ?_
    calc powerOfTen (-1) < (shortest q).digits * powerOfTen (shortest q).exponent := by
          have htenth : powerOfTen (-1) = 1 / 10 := by
            rw [powerOfTen_eq]
            norm_num
          rw [htenth]
          linarith
      _ < powerOfTen (Nat.toDigits 10 (shortest q).digits).length *
            powerOfTen (shortest q).exponent := by
          gcongr
          exact hdigits.2
      _ = powerOfTen ((shortest q).exponent + (Nat.toDigits 10 (shortest q).digits).length) := by
          rw [hadd, add_comm]
  have hpoint_high : (Nat.toDigits 10 (shortest q).digits).length - 1 + (shortest q).exponent <
      21 := by
    refine lt_of_powerOfTen_lt ?_
    calc powerOfTen ((Nat.toDigits 10 (shortest q).digits).length - 1 + (shortest q).exponent)
        = powerOfTen ((Nat.toDigits 10 (shortest q).digits).length - 1) *
            powerOfTen (shortest q).exponent := (hadd _).symm
      _ ≤ (shortest q).digits * powerOfTen (shortest q).exponent := by
          gcongr
          exact hdigits.1
      _ < powerOfTen 21 := by
          have hlimit : powerOfTen 21 = 10 ^ 21 := by
            rw [powerOfTen_eq]
            norm_num
          rw [hlimit]
          linarith
  refine isPlain_of_mem_layOut (fun c hc => ?_) (by omega) (by omega) hc
  rw [List.mem_reverse] at hc
  have hmem := (List.dropWhile_sublist _).mem hc
  exact Nat.isDigit_of_mem_toDigits (by decide) (by decide) (List.mem_reverse.mp hmem)

theorem isPlain_of_mem_text (h : ofRat q = finite q) (hlow : q = 0 ∨ 1 ≤ |q|)
    (hhigh : |q| ≤ 10 ^ 20) {c : Char} (hc : c ∈ (text (finite q)).toList) : IsPlain c := by
  rcases lt_trichotomy q 0 with hq | rfl | hq
  · have hfits : Fits (-q) := by
      refine ⟨neg_pos.mpr hq, ?_⟩
      rw [ofRat_neg, h]
      rfl
    rw [abs_of_neg hq] at hlow hhigh
    rw [text, if_neg hq.ne, if_pos hq, String.toList_ofList] at hc
    rcases List.mem_cons.mp hc with rfl | hc
    · exact .inr (.inr rfl)
    · exact hfits.isPlain_of_mem (hlow.resolve_left hq.ne) hhigh hc
  · have hall : ∀ c ∈ "0".toList, c.isDigit = true :=
      List.all_iff_forall_prop.mp (by decide)
    exact .inl (hall c hc)
  · rw [abs_of_pos hq] at hlow hhigh
    rw [text, if_neg hq.ne', if_neg (not_lt.mpr hq.le), String.toList_ofList] at hc
    exact Fits.isPlain_of_mem ⟨hq, h⟩ (hlow.resolve_left hq.ne') hhigh hc

end ScriptPack.Number

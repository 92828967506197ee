import Mathlib.Algebra.Order.Field.Power
import Mathlib.Algebra.Order.Floor.Ring
import Mathlib.Data.Rat.Floor
import Mathlib.Tactic.Linarith
import ScriptPack.Number.Binary64

/-!
Rounding to 64 bits. What lies close enough to a multiple of its last place is rounded to that
multiple, so that a number that fits is what it was, and so are natural numbers up to 2⁵³.
-/

namespace ScriptPack.Number

variable {q r : Rat} {n m : Nat}

theorem powerOfTwo_eq (e : Int) : powerOfTwo e = (2 : Rat) ^ e := by
  rw [powerOfTwo]
  split
  · rename_i he
    obtain ⟨k, rfl⟩ := Int.eq_ofNat_of_zero_le he
    simp
  · rename_i he
    obtain ⟨k, hk⟩ := Int.eq_ofNat_of_zero_le (a := -e) (by omega)
    rw [hk, Int.toNat_natCast, Rat.mkRat_eq_div, ← neg_neg e, hk, zpow_neg, zpow_natCast]
    simp

theorem powerOfTwo_pos (e : Int) : 0 < powerOfTwo e := by
  rw [powerOfTwo_eq]
  positivity

theorem powerOfTwo_le {e e' : Int} (h : e ≤ e') : powerOfTwo e ≤ powerOfTwo e' := by
  rw [powerOfTwo_eq, powerOfTwo_eq]
  exact zpow_le_zpow_right₀ one_le_two h

theorem lt_of_powerOfTwo_lt {e e' : Int} (h : powerOfTwo e < powerOfTwo e') : e < e' := by
  by_contra hle
  exact absurd h (not_lt.mpr (powerOfTwo_le (not_lt.mp hle)))

theorem powerOfTwo_log2 (h : n ≠ 0) :
    powerOfTwo n.log2 ≤ n ∧ n < powerOfTwo (n.log2 + 1) := by
  rw [powerOfTwo_eq, powerOfTwo_eq]
  constructor
  · exact_mod_cast Nat.log2_self_le h
  · exact_mod_cast Nat.lt_log2_self

/-- The exponents of two positive numbers leave two exponents open for their quotient. -/
theorem zpow_le_div {b x y : Rat} {i j : Int} (hb : 1 < b) (hx : b ^ i ≤ x ∧ x < b ^ (i + 1))
    (hy : b ^ j ≤ y ∧ y < b ^ (j + 1)) :
    b ^ (i - j - 1) ≤ x / y ∧ x / y < b ^ (i - j + 1) := by
  have hb₀ : b ≠ 0 := by linarith
  have hpos (k : Int) : 0 < b ^ k := zpow_pos (by linarith) k
  have hy₀ := (hpos j).trans_le hy.1
  constructor
  · rw [show i - j - 1 = i - (j + 1) by ring, zpow_sub₀ hb₀]
    gcongr
    · exact (hpos i).le.trans hx.1
    · exact hx.1
    · exact hy.2.le
  · rw [show i - j + 1 = i + 1 - j by ring, zpow_sub₀ hb₀]
    calc x / y < b ^ (i + 1) / y := by gcongr; exact hx.2
      _ ≤ b ^ (i + 1) / b ^ j := by
        gcongr
        exact hy.1

theorem natAbs_num_div_den (h : 0 < q) : (q.num.natAbs : Rat) / q.den = q := by
  have hcast : (q.num.natAbs : Rat) = q.num := by
    rw [Nat.cast_natAbs, abs_of_pos (Rat.num_pos.mpr h)]
  rw [hcast, Rat.num_div_den]

theorem binaryExponent_spec (h : 0 < q) :
    powerOfTwo (binaryExponent q) ≤ q ∧ q < powerOfTwo (binaryExponent q + 1) := by
  have hn : q.num.natAbs ≠ 0 := Int.natAbs_ne_zero.mpr (Rat.num_ne_zero.mpr h.ne')
  have hguess := zpow_le_div one_lt_two
    (by simpa only [powerOfTwo_eq] using powerOfTwo_log2 hn)
    (by simpa only [powerOfTwo_eq] using powerOfTwo_log2 q.den_nz)
  rw [natAbs_num_div_den h, ← powerOfTwo_eq, ← powerOfTwo_eq] at hguess
  rw [binaryExponent]
  split
  · rename_i hlt
    rw [sub_add_cancel]
    exact ⟨hguess.1, hlt⟩
  · rename_i hle
    exact ⟨not_lt.mp hle, hguess.2⟩

theorem binaryExponent_eq {e : Int} (hlow : powerOfTwo e ≤ q) (hhigh : q < powerOfTwo (e + 1)) :
    binaryExponent q = e := by
  obtain ⟨hl, hh⟩ := binaryExponent_spec ((powerOfTwo_pos e).trans_le hlow)
  have h₁ := lt_of_powerOfTwo_lt (hlow.trans_lt hh)
  have h₂ := lt_of_powerOfTwo_lt (hl.trans_lt hhigh)
  omega

/-- What is less than a half away from an integer is rounded to it. -/
theorem roundHalfEven_eq {k : Int} (h : |q - k| < 1 / 2) : roundHalfEven q = k := by
  obtain ⟨h₁, h₂⟩ := abs_lt.mp h
  have hfloor : q.floor = ⌊q⌋ := rfl
  rw [roundHalfEven]
  simp only [hfloor]
  rcases lt_or_ge q k with hlt | hge
  · have hf : ⌊q⌋ = k - 1 := Int.floor_eq_iff.mpr ⟨by push_cast; linarith, by push_cast; linarith⟩
    rw [hf, if_neg (by push_cast; linarith), if_pos (by push_cast; linarith), sub_add_cancel]
  · have hf : ⌊q⌋ = k := Int.floor_eq_iff.mpr ⟨hge, by linarith⟩
    rw [hf, if_pos (by linarith)]

theorem roundHalfEven_cases (q : Rat) :
    roundHalfEven q = q.floor ∨ roundHalfEven q = q.floor + 1 := by
  rw [roundHalfEven]
  split
  · exact .inl rfl
  · split
    · exact .inr rfl
    · split
      · exact .inl rfl
      · exact .inr rfl

theorem abs_sub_roundHalfEven_le (q : Rat) : |q - roundHalfEven q| ≤ 1 / 2 := by
  have hfloor : q.floor = ⌊q⌋ := rfl
  have hle := Int.floor_le q
  have hlt := Int.lt_floor_add_one q
  rw [roundHalfEven, abs_le]
  simp only [hfloor]
  split
  · constructor <;> linarith
  · split
    · push_cast
      constructor <;> linarith
    · split <;> push_cast <;> constructor <;> linarith

/-- A positive number that is closer than half a last place to a multiple of that place. -/
theorem ofRat_near {k : Int} (hq : 0 < q) (hr : r = k * powerOfTwo (lastPlace q))
    (h : |q - r| < powerOfTwo (lastPlace q) / 2) (hb : r < powerOfTwo 1024) :
    ofRat q = finite r := by
  have hpos := powerOfTwo_pos (lastPlace q)
  have habs : q.abs = q := Rat.abs_of_nonneg hq.le
  have hround : roundHalfEven (q / powerOfTwo (lastPlace q)) = k := by
    refine roundHalfEven_eq ?_
    have hk : (k : Rat) = r / powerOfTwo (lastPlace q) := by
      rw [hr, mul_div_cancel_right₀ _ hpos.ne']
    rw [hk, ← sub_div, abs_div, abs_of_pos hpos, div_lt_iff₀ hpos]
    linarith
  rw [ofRat, if_neg hq.ne', habs]
  simp only
  rw [hround, ← hr, if_neg (not_le.mpr hb), if_neg (not_lt.mpr hq.le)]

/-- A multiple of its last place is what it was. -/
theorem ofRat_of_fits {k : Int} (hq : 0 < q) (hk : q = k * powerOfTwo (lastPlace q))
    (hb : q < powerOfTwo 1024) : ofRat q = finite q := by
  refine ofRat_near hq hk ?_ hb
  rw [sub_self, abs_zero]
  exact half_pos (powerOfTwo_pos _)

/-- A multiple of a power of two by no more than 2⁵³ fits, if the power is not too small. -/
theorem ofRat_of_multiple {k : Nat} {p : Int} (hk : k ≤ 2 ^ 53) (hp : -1074 ≤ p)
    (hb : k * powerOfTwo p < powerOfTwo 1024) :
    ofRat (k * powerOfTwo p) = finite (k * powerOfTwo p) := by
  rcases Nat.eq_zero_or_pos k with rfl | hpos
  · rw [Nat.cast_zero, zero_mul]
    rfl
  have hpow := powerOfTwo_pos p
  have hq : 0 < k * powerOfTwo p := mul_pos (by exact_mod_cast hpos) hpow
  have hscale (d : Nat) : (2 : Rat) ^ d * powerOfTwo p = powerOfTwo (d + p) := by
    rw [powerOfTwo_eq, powerOfTwo_eq, zpow_add₀ two_ne_zero, zpow_natCast]
  rcases hk.lt_or_eq with hlt | rfl
  · obtain ⟨hl, -⟩ := binaryExponent_spec hq
    have htop : k * powerOfTwo p < powerOfTwo ((53 : Nat) + p) := by
      rw [← hscale]
      gcongr
      exact_mod_cast hlt
    have hexp := lt_of_powerOfTwo_lt (hl.trans_lt htop)
    obtain ⟨d, hd⟩ := Int.eq_ofNat_of_zero_le (a := p - lastPlace (k * powerOfTwo p))
      (by rw [lastPlace]; omega)
    refine ofRat_of_fits (k := k * 2 ^ d) hq ?_ hb
    generalize lastPlace (k * powerOfTwo p) = place at hd
    rw [powerOfTwo_eq, powerOfTwo_eq, ← sub_add_cancel p place, hd, zpow_add₀ two_ne_zero,
      zpow_natCast]
    push_cast
    ring
  · rw [show ((2 ^ 53 : Nat) : Rat) = 2 ^ 53 by norm_num, hscale] at *
    have hexp : binaryExponent (powerOfTwo ((53 : Nat) + p)) = (53 : Nat) + p := by
      refine binaryExponent_eq le_rfl ?_
      rw [powerOfTwo_eq, powerOfTwo_eq]
      exact zpow_lt_zpow_right₀ one_lt_two (by omega)
    refine ofRat_of_fits (k := 2 ^ 52) hq ?_ hb
    have hlast : lastPlace (powerOfTwo ((53 : Nat) + p)) = p + 1 := by
      rw [lastPlace, hexp]
      push_cast
      omega
    rw [hlast, powerOfTwo_eq, powerOfTwo_eq, zpow_add₀ two_ne_zero, zpow_add₀ two_ne_zero,
      zpow_natCast, zpow_one]
    push_cast
    ring

theorem ofRat_neg (q : Rat) : ofRat (-q) = (ofRat q).neg := by
  rcases lt_trichotomy q 0 with h | rfl | h
  · have hne : -q ≠ 0 := by linarith
    rw [ofRat, ofRat, if_neg hne, if_neg h.ne, Rat.abs_neg]
    simp only [h, if_neg (show ¬-q < 0 by linarith)]
    split <;> simp [neg, h.le]
  · rfl
  · have hne : -q ≠ 0 := by linarith
    rw [ofRat, ofRat, if_neg hne, if_neg h.ne', Rat.abs_neg]
    simp only [if_pos (show -q < 0 by linarith), if_neg (not_lt.mpr h.le)]
    split <;> simp [neg, h, h.le]

/-- A number that is what it is rounded to. -/
def IsRounded (n : Number) : Prop := ∀ q, n = finite q → ofRat q = finite q

theorem isRounded_ofRat (q : Rat) : (ofRat q).IsRounded := by
  intro r hr
  by_cases hq : q = 0
  · rw [ofRat, if_pos hq, finite.injEq] at hr
    rw [← hr]
    rfl
  have habs : 0 < q.abs := by
    rcases lt_or_gt_of_ne hq with h | h
    · rw [Rat.abs_of_nonpos h.le]
      linarith
    · rwa [Rat.abs_of_nonneg h.le]
  have hplace := powerOfTwo_pos (lastPlace q.abs)
  rw [ofRat, if_neg hq] at hr
  simp only at hr
  split at hr
  · cases hr
  · rename_i hb
    rw [not_le] at hb
    have hfloor : (q.abs / powerOfTwo (lastPlace q.abs)).floor =
        ⌊q.abs / powerOfTwo (lastPlace q.abs)⌋ := rfl
    have hlow : 0 ≤ ⌊q.abs / powerOfTwo (lastPlace q.abs)⌋ :=
      Int.floor_nonneg.mpr (div_nonneg habs.le hplace.le)
    have hhigh : ⌊q.abs / powerOfTwo (lastPlace q.abs)⌋ < 2 ^ 53 := by
      rw [Int.floor_lt, div_lt_iff₀ hplace]
      refine (binaryExponent_spec habs).2.trans_le ?_
      have hscale : ((2 ^ 53 : Int) : Rat) * powerOfTwo (lastPlace q.abs) =
          powerOfTwo (53 + lastPlace q.abs) := by
        rw [powerOfTwo_eq, powerOfTwo_eq, zpow_add₀ two_ne_zero]
        norm_num
      rw [hscale]
      exact powerOfTwo_le (by rw [lastPlace]; omega)
    have hround := roundHalfEven_cases (q.abs / powerOfTwo (lastPlace q.abs))
    rw [hfloor] at hround
    obtain ⟨k, hk⟩ := Int.eq_ofNat_of_zero_le
      (a := roundHalfEven (q.abs / powerOfTwo (lastPlace q.abs))) (by omega)
    rw [hk, Int.cast_natCast] at hr hb
    have hfits := ofRat_of_multiple (k := k) (by omega) (by rw [lastPlace]; omega) hb
    rw [finite.injEq] at hr
    rw [← hr]
    split
    · rw [ofRat_neg, hfits]
      rfl
    · exact hfits

theorem isRounded_div (a b : Number) : (a / b).IsRounded := by
  change (div a b).IsRounded
  intro q hq
  cases a with
  | nan => cases hq
  | infinite negative => cases b <;> cases hq
  | finite a =>
      cases b with
      | nan => cases hq
      | infinite negative =>
          cases hq
          rfl
      | finite b =>
          rw [div] at hq
          split at hq
          · split at hq <;> cases hq
          · exact isRounded_ofRat _ q hq

theorem ofNat_of_le (h : n ≤ 2 ^ 53) : ofNat n = finite n := by
  have hone : (n : Rat) = n * powerOfTwo 0 := by
    rw [powerOfTwo_eq, zpow_zero, mul_one]
  rw [ofNat, hone]
  refine ofRat_of_multiple h (by decide) ?_
  rw [← hone, powerOfTwo_eq]
  have hle : (n : Rat) ≤ 2 ^ 53 := by exact_mod_cast h
  refine hle.trans_lt ?_
  exact_mod_cast pow_lt_pow_right₀ (one_lt_two (α := Rat)) (by decide : 53 < 1024)

theorem ofNat_add_ofNat (h : n + m ≤ 2 ^ 53) : ofNat n + ofNat m = ofNat (n + m) := by
  have hsum : ofNat n + ofNat m = ofRat ((n : Rat) + m) := by
    rw [ofNat_of_le (by omega : n ≤ 2 ^ 53), ofNat_of_le (by omega : m ≤ 2 ^ 53)]
    rfl
  rw [hsum, ofNat, Nat.cast_add]

end ScriptPack.Number

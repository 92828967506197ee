import Mathlib.Algebra.Order.Ring.Int
import Mathlib.Order.Monotone.Basic
import ScriptPack.Time.Calendar

/-!
Days and dates. The date with a number has that number again, and its month and day are within
their ranges.
-/

namespace ScriptPack.Time

/-- The year within a span of four hundred years, counted from March, of a day in the span. -/
def yearOfSpan (day : Int) : Int := (day - day / 1460 + day / 36524 - day / 146096) / 365

/-- The days of a span before a year of it. -/
def daysBefore (year : Int) : Int := 365 * year + year / 4 - year / 100

theorem yearOfSpan_monotone {day later : Int} (h : day ≤ later) :
    yearOfSpan day ≤ yearOfSpan later := by
  refine monotone_int_of_le_succ (f := yearOfSpan) (fun day => Int.ediv_le_ediv (by decide) ?_) h
  -- A day more takes away one at most, and a span ends together with a century.
  have hfour : (day + 1) / 1460 ≤ day / 1460 + 1 := by omega
  have hspan (n : Int) : n / 146096 = n / 36524 / 4 := by omega
  have hcentury : day / 36524 ≤ (day + 1) / 36524 := by omega
  rw [hspan, hspan]
  omega

/-- The first and the last day of each year. -/
theorem yearOfSpan_daysBefore : ∀ year : Fin 400,
    yearOfSpan (daysBefore (year : Nat)) = (year : Nat) ∧
      yearOfSpan (daysBefore ((year : Nat) + 1) - 1) = (year : Nat) := by
  decide +kernel

theorem yearOfSpan_spec {day : Int} (h₀ : 0 ≤ day) (h : day < 146097) :
    0 ≤ yearOfSpan day ∧ yearOfSpan day < 400 ∧ daysBefore (yearOfSpan day) ≤ day ∧
      day - daysBefore (yearOfSpan day) ≤ 365 := by
  have hlow : 0 ≤ yearOfSpan day := yearOfSpan_monotone h₀
  have hhigh : yearOfSpan day ≤ 399 := yearOfSpan_monotone (show day ≤ 146096 by omega)
  obtain ⟨year, hyear⟩ := Int.eq_ofNat_of_zero_le hlow
  rw [hyear] at hhigh ⊢
  refine ⟨by omega, by omega, ?_, ?_⟩
  · -- A day before the year belongs to an earlier year.
    by_contra hlt
    cases year with
    | zero => exact hlt h₀
    | succ year =>
        have hlast := (yearOfSpan_daysBefore ⟨year, by omega⟩).2
        have hle := yearOfSpan_monotone (show day ≤ daysBefore ((year : Nat) + 1) - 1 by
          rw [Nat.cast_add_one] at hlt
          omega)
        simp only at hlast
        omega
  · by_cases hlast : year = 399
    · rw [hlast, daysBefore]
      omega
    · have hnext := (yearOfSpan_daysBefore ⟨year + 1, by omega⟩).1
      simp only [Nat.cast_add_one] at hnext
      by_contra hlt
      have hle := yearOfSpan_monotone (show daysBefore ((year : Int) + 1) ≤ day by
        rw [daysBefore] at hlt ⊢
        omega)
      omega


/-- The date of a day of a year that begins in March. -/
def dateOf (span year day : Int) : Date :=
  let shiftedMonth := (5 * day + 2) / 153
  let month := if shiftedMonth < 10 then shiftedMonth + 3 else shiftedMonth - 9
  let year := year + span * 400
  ⟨if month ≤ 2 then year + 1 else year, month, day - (153 * shiftedMonth + 2) / 5 + 1⟩

/-- Every date is that of a day of a year. -/
theorem dateOfDay_eq (n : Int) : ∃ span year day : Int,
    n + 719468 = span * 146097 + daysBefore year + day ∧ 0 ≤ year ∧ year < 400 ∧
      0 ≤ day ∧ day ≤ 365 ∧ dateOfDay n = dateOf span year day := by
  obtain ⟨hlow, hhigh, hbefore, hday⟩ :=
    yearOfSpan_spec (show 0 ≤ (n + 719468) % 146097 by omega) (by omega)
  exact ⟨(n + 719468) / 146097, yearOfSpan ((n + 719468) % 146097),
    (n + 719468) % 146097 - daysBefore (yearOfSpan ((n + 719468) % 146097)),
    by omega, hlow, hhigh, by omega, hday, rfl⟩

theorem dateOf_inRange (span year : Int) {day : Int} (h₀ : 0 ≤ day) (h : day ≤ 365) :
    1 ≤ (dateOf span year day).month ∧ (dateOf span year day).month ≤ 12 ∧
      1 ≤ (dateOf span year day).day ∧ (dateOf span year day).day ≤ 31 := by
  have hmonth : 0 ≤ (5 * day + 2) / 153 ∧ (5 * day + 2) / 153 < 12 := by omega
  simp only [dateOf]
  refine ⟨?_, ?_, by omega, by omega⟩ <;> split <;> omega

theorem dayNumber_dateOf (span : Int) {year day : Int} (hy₀ : 0 ≤ year) (hy : year < 400)
    (h₀ : 0 ≤ day) (h : day ≤ 365) :
    dayNumber (dateOf span year day) = span * 146097 + daysBefore year + day - 719468 := by
  have hmonth : 0 ≤ (5 * day + 2) / 153 ∧ (5 * day + 2) / 153 < 12 := by omega
  simp only [dateOf, dayNumber, daysBefore]
  by_cases hm : (5 * day + 2) / 153 < 10
  · have hback : ((5 * day + 2) / 153 + 3 + 9) % 12 = (5 * day + 2) / 153 := by omega
    simp only [if_pos hm]
    rw [if_neg (by omega), if_neg (by omega), hback]
    omega
  · have hback : ((5 * day + 2) / 153 - 9 + 9) % 12 = (5 * day + 2) / 153 := by omega
    simp only [if_neg hm]
    rw [if_pos (by omega), if_pos (by omega), hback]
    omega

/-- A day is found again by its date. -/
theorem dayNumber_dateOfDay (n : Int) : dayNumber (dateOfDay n) = n := by
  obtain ⟨span, year, day, hn, hy₀, hy, h₀, h, heq⟩ := dateOfDay_eq n
  rw [heq, dayNumber_dateOf span hy₀ hy h₀ h]
  omega

theorem dateOfDay_inRange (n : Int) : 1 ≤ (dateOfDay n).month ∧ (dateOfDay n).month ≤ 12 ∧
    1 ≤ (dateOfDay n).day ∧ (dateOfDay n).day ≤ 31 := by
  obtain ⟨span, year, day, -, -, -, h₀, h, heq⟩ := dateOfDay_eq n
  rw [heq]
  exact dateOf_inRange span year h₀ h

/-- Years have six digits at most in a range of a hundred million days to either side. -/
theorem year_dateOfDay {n : Int} (h : n.natAbs ≤ 100000000) :
    (dateOfDay n).year.natAbs < 1000000 := by
  obtain ⟨span, year, day, hn, hy₀, hy, h₀, hday, heq⟩ := dateOfDay_eq n
  have hspan : (year + span * 400).natAbs < 999999 := by
    rw [daysBefore] at hn
    omega
  rw [heq]
  simp only [dateOf]
  generalize year + span * 400 = total at hspan
  split <;> split <;> omega

end ScriptPack.Time

import Mathlib.Data.List.TakeWhile
import Mathlib.Data.Nat.Digits.Defs
import Mathlib.Tactic.FinCases
import ScriptPack.Time.DateText
import ScriptPack.Proofs.Json.Number
import ScriptPack.Proofs.Time.Calendar

/-!
Moments read back. The written form of a moment is split into the tokens of the standard form, of
which the reader finds the parts again.
-/

namespace ScriptPack.Time.DateText

open Timestamp

variable {text rest : List Char} {toks : List Token}

/-! ### Padded numbers -/

theorem isDigit_of_mem_padded {width n : Nat} {c : Char} (h : c ∈ padded width n) :
    c.isDigit = true := by
  rw [padded, List.mem_append] at h
  rcases h with h | h
  · rw [(List.mem_replicate.mp h).2]
    rfl
  · exact Nat.isDigit_of_mem_toDigits (by decide) (by decide) h

theorem length_padded {width n : Nat} (hw : 0 < width) (h : n < 10 ^ width) :
    (padded width n).length = width := by
  have hlength : (Nat.toDigits 10 n).length ≤ width :=
    Nat.toDigits_length 10 n width hw h
  rw [padded, List.length_append, List.length_replicate]
  omega

theorem foldl_digits {digits : List Char} (hd : ∀ c ∈ digits, c.isDigit = true) (m : Nat) :
    digits.foldl (fun n c => 10 * n + ((c.toNat : Int) - 48)) (m : Int) =
      (Nat.ofDigitChars 10 digits m : Nat) := by
  induction digits generalizing m with
  | nil => rfl
  | cons c digits ih =>
      have hc : 48 ≤ c.toNat := by
        have hdigit := hd c List.mem_cons_self
        rw [Char.isDigit, Bool.and_eq_true, decide_eq_true_eq] at hdigit
        exact hdigit.1
      have hstep : 10 * (m : Int) + ((c.toNat : Int) - 48) =
          ((10 * m + (c.toNat - '0'.toNat) : Nat) : Int) := by
        have hzero : '0'.toNat = 48 := rfl
        rw [hzero]
        omega
      rw [List.foldl_cons, hstep, ih fun d hd' => hd d (List.mem_cons_of_mem _ hd')]
      rfl

theorem numberOf_padded {width n : Nat} (h : n < 10 ^ 9) : numberOf (padded width n) = n := by
  have hdrop : (padded width n).dropWhile (· == '0') = if n = 0 then [] else Nat.toDigits 10 n := by
    rw [padded, List.dropWhile_append_of_pos fun c hc => by
      rw [(List.mem_replicate.mp hc).2]
      rfl]
    by_cases hn : n = 0
    · rw [if_pos hn, hn]
      rfl
    · rw [if_neg hn]
      have hhead := Json.head?_toDigits hn
      cases hdigits : Nat.toDigits 10 n with
      | nil => rfl
      | cons c digits =>
          rw [hdigits, List.head?_cons] at hhead
          exact List.dropWhile_cons_of_neg (by simpa using hhead)
  rw [numberOf, hdrop]
  by_cases hn : n = 0
  · rw [if_pos hn, hn]
    rfl
  · have hlength := Nat.toDigits_length 10 n 9 (by decide) h
    rw [if_neg hn, digitLimit, List.take_of_length_le hlength]
    have hdigits : ∀ c ∈ Nat.toDigits 10 n, c.isDigit = true := fun c hc =>
      Nat.isDigit_of_mem_toDigits (by decide) (by decide) hc
    have hvalue := foldl_digits hdigits 0
    rw [Nat.ofDigitChars_ten_toDigits] at hvalue
    exact hvalue

/-! ### Tokens -/

/-- A text with given tokens. -/
structure Splits (text : List Char) (toks : List Token) : Prop where
  tokens : ∀ fuel, text.length ≤ fuel → tokensFrom fuel text = toks
  plain : ∀ c ∈ text, c ≠ '\x00'

namespace Splits

theorem nil : Splits [] [] := ⟨fun fuel _ => by cases fuel <;> rfl, nofun⟩

theorem sign (h : Splits rest toks) {c : Char} (hc : c ∈ [':', '-', '+', '.']) :
    Splits (c :: rest) (.sign c :: toks) := by
  have hd : c.isDigit = false ∧ [':', '-', '+', '.', ')'].contains c = true ∧ c ≠ '\x00' := by
    fin_cases hc <;> decide
  refine ⟨fun fuel hfuel => ?_, List.forall_mem_cons.mpr ⟨hd.2.2, h.plain⟩⟩
  obtain ⟨fuel, rfl⟩ : ∃ n, fuel = n + 1 := ⟨fuel - 1, by simp at hfuel; omega⟩
  rw [tokensFrom, hd.1, hd.2.1, h.tokens fuel (by simpa using hfuel)]
  rfl

/-- Digits make one number. -/
theorem digits (h : Splits rest toks) (hr : ∀ c, rest.head? = some c → c.isDigit = false)
    {digits : List Char} (hd : ∀ c ∈ digits, c.isDigit = true) (hne : digits ≠ []) :
    Splits (digits ++ rest) (.number (numberOf digits) digits.length :: toks) := by
  obtain ⟨htake, hdrop⟩ : (digits ++ rest).takeWhile Char.isDigit = digits ∧
      (digits ++ rest).dropWhile Char.isDigit = rest := by
    have hsplit := Json.digitsOf_append hd hr
    exact ⟨congrArg Prod.fst hsplit, congrArg Prod.snd hsplit⟩
  obtain ⟨c, tail, rfl⟩ := List.exists_cons_of_ne_nil hne
  have hc := hd c List.mem_cons_self
  refine ⟨fun fuel hfuel => ?_, List.forall_mem_append.mpr ⟨fun d hd' => ?_, h.plain⟩⟩
  · obtain ⟨fuel, rfl⟩ : ∃ n, fuel = n + 1 := ⟨fuel - 1, by simp at hfuel; omega⟩
    rw [List.cons_append, List.dropWhile_cons_of_pos hc] at hdrop
    rw [List.cons_append] at htake
    rw [List.cons_append, tokensFrom, if_pos hc]
    simp only
    rw [htake, hdrop, h.tokens fuel (by simp at hfuel; omega)]
  · rintro rfl
    exact absurd (hd _ hd') (by decide)

theorem padded (h : Splits rest toks) (hr : ∀ c, rest.head? = some c → c.isDigit = false)
    {width n : Nat} (hw : 0 < width) (hn : n < 10 ^ width) (hlimit : width ≤ 9) :
    Splits (padded width n ++ rest) (.number n width :: toks) := by
  have hlength := length_padded hw hn
  have hne : Timestamp.padded width n ≠ [] := List.ne_nil_of_length_pos (by omega)
  have hsplit := h.digits hr (fun c hc => isDigit_of_mem_padded hc) hne
  rwa [numberOf_padded (hn.trans_le (Nat.pow_le_pow_right (by decide) hlimit)),
    hlength] at hsplit

/-- A letter in front of a digit or at the end is a word. -/
theorem letter (h : Splits rest toks) {c : Char} (hc : c ∈ ['T', 'Z'])
    (hr : ∀ c, rest.head? = some c → c.isDigit = true) :
    Splits (c :: rest) (.word (keywordOf [c]) 1 :: toks) := by
  have hd : c.isDigit = false ∧ [':', '-', '+', '.', ')'].contains c = false ∧
      isWordPart c = true ∧ c ≠ '\x00' := by
    fin_cases hc <;> decide
  have hstops : ∀ d, rest.head? = some d → isWordPart d = false := by
    intro d hd'
    have hdigit := hr d hd'
    rw [Char.isDigit, Bool.and_eq_true, decide_eq_true_eq, decide_eq_true_eq] at hdigit
    have hnine : d.toNat ≤ 57 := UInt32.le_iff_toNat_le.mp hdigit.2
    have hle : ¬ 'A' ≤ d := fun hle => by
      have hletter : 65 ≤ d.toNat := UInt32.le_iff_toNat_le.mp hle
      omega
    simp [isWordPart, hle]
  have htake : rest.takeWhile isWordPart = [] := by
    cases rest with
    | nil => rfl
    | cons d rest => exact List.takeWhile_cons_of_neg (by simp [hstops d rfl])
  have hdrop : rest.dropWhile isWordPart = rest := by
    cases rest with
    | nil => rfl
    | cons d rest => exact List.dropWhile_cons_of_neg (by simp [hstops d rfl])
  refine ⟨fun fuel hfuel => ?_, List.forall_mem_cons.mpr ⟨hd.2.2.2, h.plain⟩⟩
  obtain ⟨fuel, rfl⟩ : ∃ n, fuel = n + 1 := ⟨fuel - 1, by simp at hfuel; omega⟩
  rw [tokensFrom, hd.1, hd.2.1, hd.2.2.1]
  simp only [Bool.false_eq_true, if_false, if_true]
  rw [List.takeWhile_cons_of_pos hd.2.2.1, htake, hdrop, h.tokens fuel (by simpa using hfuel)]
  rfl

theorem tokens_eq (h : Splits text toks) : DateText.tokens (String.ofList text) = toks := by
  have hall : text.takeWhile (· != '\x00') = text :=
    List.takeWhile_eq_self_iff.mpr fun c hc => by simpa using h.plain c hc
  rw [DateText.tokens, String.toList_ofList]
  simp only [hall]
  exact h.tokens _ (Nat.le_refl _)

end Splits

/-! ### The standard form -/

theorem between_of {low high n : Int} (hl : low ≤ n) (hh : n ≤ high) :
    between low high n = true := by simp [between, hl, hh]

/-- The tokens behind the year. -/
def tokensOf (month day hour minute second ms : Int) : List Token :=
  [.sign '-', .number month 2, .sign '-', .number day 2, .word .timeMark 1, .number hour 2,
    .sign ':', .number minute 2, .sign ':', .number second 2, .sign '.', .number ms 3,
    .word (.zone 0) 1]

theorem splits_tokensOf {month day hour minute second ms : Nat} (hmonth : month < 100)
    (hday : day < 100) (hhour : hour < 100) (hminute : minute < 100) (hsecond : second < 100)
    (hms : ms < 1000) :
    Splits ('-' :: (padded 2 month ++ '-' :: (padded 2 day ++ 'T' :: (padded 2 hour ++
        ':' :: (padded 2 minute ++ ':' :: (padded 2 second ++ '.' :: (padded 3 ms ++ ['Z'])))))))
      (tokensOf month day hour minute second ms) := by
  have hz := Splits.nil.letter (c := 'Z') (by decide) nofun
  have hstop (c : Char) (rest : List Char) (hc : c.isDigit = false) :
      ∀ d, (c :: rest).head? = some d → d.isDigit = false := by
    rintro d ⟨⟩
    exact hc
  have htwo {n : Nat} (hn : n < 100) (rest : List Char) :
      ∀ c, (padded 2 n ++ rest).head? = some c → c.isDigit = true := by
    intro c hc
    have hlength := length_padded (by decide) (show n < 10 ^ 2 from hn)
    obtain ⟨d, tail, hd⟩ := List.exists_cons_of_length_eq_add_one hlength
    rw [hd] at hc
    cases hc
    exact isDigit_of_mem_padded (show c ∈ padded 2 n from hd ▸ List.mem_cons_self)
  have hmsz := (hz.padded (hstop 'Z' _ (by decide)) (by decide)
    (show ms < 10 ^ 3 from hms) (by decide)).sign (c := '.')
    (by decide)
  have hsec := (hmsz.padded (hstop '.' _ (by decide)) (by decide)
    (show second < 10 ^ 2 from hsecond) (by decide)).sign
    (c := ':') (by decide)
  have hmin := (hsec.padded (hstop ':' _ (by decide)) (by decide)
    (show minute < 10 ^ 2 from hminute) (by decide)).sign
    (c := ':') (by decide)
  have hclock := (hmin.padded (hstop ':' _ (by decide)) (by decide)
    (show hour < 10 ^ 2 from hhour) (by decide)).letter
    (c := 'T') (by decide) (htwo hhour _)
  have hdate := (hclock.padded (hstop 'T' _ (by decide)) (by decide)
    (show day < 10 ^ 2 from hday) (by decide)).sign
    (c := '-') (by decide)
  exact (hdate.padded (hstop '-' _ (by decide)) (by decide)
    (show month < 10 ^ 2 from hmonth) (by decide)).sign (by decide)

/-- The parts of a moment in universal time. -/
def partsOf (year month day hour minute second ms : Int) : Parts where
  date := [year, month, day]
  month := none
  standard := false
  time := [hour, minute, second, ms]
  hourOffset := none
  zoneSign := some 1
  zoneHour := some 0
  zoneMinute := some 0

theorem standardMonth_tokensOf (year : Int) {month day hour minute second ms : Int}
    (hmonth : 1 ≤ month ∧ month ≤ 12) (hday : 1 ≤ day ∧ day ≤ 31) (hhour : 0 ≤ hour ∧ hour ≤ 23)
    (hminute : 0 ≤ minute ∧ minute ≤ 59) (hsecond : 0 ≤ second ∧ second ≤ 59) :
    standardMonth { Parts.empty with date := [year] } (tokensOf month day hour minute second ms) =
      .complete (partsOf year month day hour minute second ms) := by
  have hfull : (hour == 24) = false := by
    rw [beq_eq_false_iff_ne]
    omega
  have hmilli : milliseconds ms 3 = ms := by simp [milliseconds, digitLimit]
  simp [tokensOf, standardMonth, standardRest, standardTime, standardZone, isMinute, isZoneZ,
    between_of hmonth.1 hmonth.2, between_of hday.1 hday.2, between_of hhour.1 (show hour ≤ 24 by omega),
    between_of hminute.1 hminute.2, between_of hsecond.1 hsecond.2, hfull, hmilli, partsOf,
    Parts.setZone, Parts.empty]

theorem timestamp_partsOf (year : Int) {month day hour minute second ms : Int}
    (hmonth : 1 ≤ month ∧ month ≤ 12) (hday : 1 ≤ day ∧ day ≤ 31) (hhour : 0 ≤ hour ∧ hour ≤ 23)
    (hminute : 0 ≤ minute ∧ minute ≤ 59) (hsecond : 0 ≤ second ∧ second ≤ 59)
    (hms : 0 ≤ ms ∧ ms ≤ 999) :
    ({ partsOf year month day hour minute second ms with standard := true } : Parts).timestamp =
      .ofMilliseconds (dayNumber ⟨year, month, day⟩ * dayLength +
        (((hour * 60 + minute) * 60 + second) * 1000 + ms)) := by
  simp [Parts.timestamp, Parts.date?, Parts.time?, Parts.zone, partsOf, isMinute,
    between_of hmonth.1 hmonth.2, between_of hday.1 hday.2, between_of hhour.1 hhour.2,
    between_of hminute.1 hminute.2, between_of hsecond.1 hsecond.2, between_of hms.1 hms.2]

/-- A year is read with its sign, whether it is written with one or not. -/
theorem standard_yearText {year : Int} (h : year.natAbs < 1000000) {rest : List Char}
    {toks : List Token} (hs : Splits rest toks)
    (hr : ∀ c, rest.head? = some c → c.isDigit = false) :
    standard (tokens (String.ofList (yearText year ++ rest))) =
      standardMonth { Parts.empty with date := [year] } toks := by
  rw [yearText]
  split
  · rename_i hshort
    rw [Bool.and_eq_true, decide_eq_true_eq, decide_eq_true_eq] at hshort
    have hyear : (year.toNat : Int) = year := by omega
    have hfour := hs.padded hr (by decide) (show year.toNat < 10 ^ 4 by omega) (by decide)
    rw [hfour.tokens_eq, hyear]
    rfl
  · rename_i hlong
    rw [Bool.and_eq_true, decide_eq_true_eq, decide_eq_true_eq] at hlong
    have hsix := hs.padded hr (by decide) (show year.natAbs < 10 ^ 6 from h) (by decide)
    by_cases hneg : year < 0
    · have hzero : ((year.natAbs : Int) == 0) = false := by
        rw [beq_eq_false_iff_ne]
        omega
      have hback : -(year.natAbs : Int) = year := by omega
      rw [if_pos hneg, List.cons_append, (hsix.sign (by decide)).tokens_eq, standard]
      simp only [hzero, hback, Bool.and_false, Bool.false_eq_true, if_false, if_true]
    · have hback : (year.natAbs : Int) = year := by omega
      rw [if_neg hneg, List.cons_append, (hsix.sign (by decide)).tokens_eq, standard]
      simp only [hback, Bool.false_and, Bool.false_eq_true, if_false]

/-- The written form of a moment in the range of dates names that moment. -/
theorem read_iso {ms : Int} {text : String} (hlow : -limit ≤ ms) (hhigh : ms ≤ limit)
    (h : (Timestamp.at ms).iso? = some text) : read text = .at ms := by
  rw [limit] at hlow hhigh
  obtain ⟨hm₁, hm₂, hd₁, hd₂⟩ := dateOfDay_inRange (ms / dayLength)
  have hyear : (dateOfDay (ms / dayLength)).year.natAbs < 1000000 :=
    year_dateOfDay (by rw [dayLength]; omega)
  have hnumber := dayNumber_dateOfDay (ms / dayLength)
  -- From here on the date and the milliseconds of the day are arbitrary.
  obtain ⟨day, hday⟩ : ∃ day : Nat, (day : Int) = ms % dayLength :=
    ⟨(ms % dayLength).toNat, Int.toNat_of_nonneg (Int.emod_nonneg _ (by decide))⟩
  have hrest : (ms % dayLength).toNat = day := by omega
  have hlt : day < 86400000 := by
    rw [dayLength] at hday
    omega
  rw [Timestamp.iso?, hrest, Option.some.injEq] at h
  generalize dateOfDay (ms / dayLength) = date at hm₁ hm₂ hd₁ hd₂ hyear hnumber h
  obtain ⟨year, month, dayOfMonth⟩ := date
  simp only at hm₁ hm₂ hd₁ hd₂ hyear h
  obtain ⟨month, rfl⟩ := Int.eq_ofNat_of_zero_le (show 0 ≤ month by omega)
  obtain ⟨dayOfMonth, rfl⟩ := Int.eq_ofNat_of_zero_le (show 0 ≤ dayOfMonth by omega)
  rw [Int.toNat_natCast, Int.toNat_natCast] at h
  have hsplits := splits_tokensOf (show month < 100 by omega) (show dayOfMonth < 100 by omega)
    (show day / 3600000 < 100 by omega) (show day / 60000 % 60 < 100 by omega)
    (show day / 1000 % 60 < 100 by omega) (show day % 1000 < 1000 by omega)
  have hstandard := standard_yearText hyear hsplits (by rintro c ⟨⟩; rfl)
  have hhour : 0 ≤ ((day / 3600000 : Nat) : Int) ∧ ((day / 3600000 : Nat) : Int) ≤ 23 := by omega
  have hminute : 0 ≤ ((day / 60000 % 60 : Nat) : Int) ∧ ((day / 60000 % 60 : Nat) : Int) ≤ 59 := by
    omega
  have hsecond : 0 ≤ ((day / 1000 % 60 : Nat) : Int) ∧ ((day / 1000 % 60 : Nat) : Int) ≤ 59 := by
    omega
  rw [standardMonth_tokensOf year ⟨hm₁, hm₂⟩ ⟨hd₁, hd₂⟩ hhour hminute hsecond] at hstandard
  have htext : String.ofList (yearText year ++ ('-' :: (padded 2 month ++ '-' ::
      (padded 2 dayOfMonth ++ 'T' :: (padded 2 (day / 3600000) ++ ':' ::
        (padded 2 (day / 60000 % 60) ++ ':' :: (padded 2 (day / 1000 % 60) ++ '.' ::
          (padded 3 (day % 1000) ++ ['Z'])))))))) = text := by
    rw [← h]
    simp
  rw [htext] at hstandard
  have hmoment : dayNumber ⟨year, month, dayOfMonth⟩ * dayLength +
      (((((day / 3600000 : Nat) : Int) * 60 + ((day / 60000 % 60 : Nat) : Int)) * 60 +
        ((day / 1000 % 60 : Nat) : Int)) * 1000 + ((day % 1000 : Nat) : Int)) = ms := by
    rw [hnumber, dayLength]
    rw [dayLength] at hday
    omega
  rw [read, hstandard]
  simp only
  rw [timestamp_partsOf year ⟨hm₁, hm₂⟩ ⟨hd₁, hd₂⟩ hhour hminute hsecond (by omega), hmoment,
    ofMilliseconds, if_pos]
  rw [Bool.and_eq_true, decide_eq_true_eq, decide_eq_true_eq, limit]
  exact ⟨hlow, hhigh⟩

end ScriptPack.Time.DateText

import ScriptPack.Json.Read
import ScriptPack.Proofs.Number.Decimal

/-!
Numbers in JSON text. The text of a number reads back as the number, whatever way it is laid out, as
long as what follows does not go on with it.
-/

namespace ScriptPack.Json

variable {digits rest : List Char}

/-- A text that does not go on with a number in front of it. -/
def Ends (rest : List Char) : Prop :=
  ∀ c, rest.head? = some c → c.isDigit = false ∧ c ≠ '.' ∧ c ≠ 'e' ∧ c ≠ 'E'

theorem ends_nil : Ends [] := nofun

theorem digitsOf_append (hd : ∀ c ∈ digits, c.isDigit = true)
    (hr : ∀ c, rest.head? = some c → c.isDigit = false) :
    digitsOf (digits ++ rest) = (digits, rest) := by
  have hall : ∀ c ∈ digits, Char.isDigit c = true := hd
  rw [digitsOf, List.takeWhile_append_of_pos hall, List.dropWhile_append_of_pos hall]
  cases rest with
  | nil => simp
  | cons c rest => simp [hr c rfl]

theorem natOf_eq (digits : List Char) : natOf digits = Nat.ofDigitChars 10 digits 0 := rfl

theorem exponent?_none (h : Ends rest) : exponent? rest = some (0, rest) := by
  cases rest with
  | nil => rfl
  | cons c rest =>
      obtain ⟨-, -, he, he'⟩ := h c rfl
      simp [exponent?, he, he']

theorem exponent?_some (h : Ends rest) (e : Int) :
    exponent? ('e' :: (if e < 0 then '-' else '+') :: (Nat.toDigits 10 e.natAbs ++ rest)) =
      some (e, rest) := by
  have hdigits : digitsOf (Nat.toDigits 10 e.natAbs ++ rest) = (Nat.toDigits 10 e.natAbs, rest) :=
    digitsOf_append (fun c hc => Nat.isDigit_of_mem_toDigits (by decide) (by decide) hc)
      fun c hc => (h c hc).1
  have hvalue : natOf (Nat.toDigits 10 e.natAbs) = e.natAbs := Nat.ofDigitChars_ten_toDigits
  obtain ⟨d, ds, hne⟩ := List.exists_cons_of_ne_nil
    (Nat.toDigits_ne_nil (b := 10) (n := e.natAbs))
  by_cases he : e < 0
  · simp only [exponent?, if_pos he]
    rw [hdigits, hne]
    simp only
    rw [← hne, hvalue]
    simp [abs_of_neg he]
  · simp only [exponent?, if_neg he]
    rw [hdigits, hne]
    simp only
    rw [← hne, hvalue]
    simp [abs_of_nonneg (not_lt.mp he)]

/-- A number without a sign, read with or without one. -/
def unsigned? (negative : Bool) (text : List Char) : Option (Number × List Char) := do
  let (whole, rest) := digitsOf text
  if whole.isEmpty || (whole.head? == some '0' && whole.length != 1) then none
  else
    let (places, rest) ←
      match rest with
      | '.' :: rest =>
        match digitsOf rest with
        | ([], _) => none
        | found => some found
      | rest => some ([], rest)
    let (exponent, rest) ← exponent? rest
    some (.ofDigits negative (natOf (whole ++ places)) (exponent - places.length), rest)

theorem number?_minus (text : List Char) : number? ('-' :: text) = unsigned? true text := rfl

theorem number?_of_ne {c : Char} (hc : c ≠ '-') (text : List Char) :
    number? (c :: text) = unsigned? false (c :: text) := by
  rw [number?]
  · rfl
  · exact fun rest heq => hc (List.cons.inj heq).1

/-- The parts of the text of a number without a sign. -/
theorem unsigned?_parts (negative : Bool) (whole places : List Char) {tail : List Char} {e : Int}
    (hw : ∀ c ∈ whole, c.isDigit = true) (hne : whole ≠ [])
    (hzero : whole.head? = some '0' → whole.length = 1) (hp : ∀ c ∈ places, c.isDigit = true)
    (ht : ∀ c, tail.head? = some c → c.isDigit = false ∧ c ≠ '.')
    (he : exponent? tail = some (e, rest)) :
    unsigned? negative (whole ++ (if places = [] then tail else '.' :: (places ++ tail))) =
      some (.ofDigits negative (natOf (whole ++ places)) (e - places.length), rest) := by
  have hbehind : ∀ c, (if places = [] then tail else '.' :: (places ++ tail)).head? = some c →
      c.isDigit = false := by
    intro c hc
    split at hc
    · exact (ht c hc).1
    · cases hc
      rfl
  have hgood : (whole.isEmpty || (whole.head? == some '0' && whole.length != 1)) = false := by
    rw [Bool.or_eq_false_iff, List.isEmpty_eq_false_iff]
    refine ⟨hne, ?_⟩
    rw [Bool.and_eq_false_iff, beq_eq_false_iff_ne, bne_eq_false_iff_eq]
    exact not_or_of_imp hzero
  rw [unsigned?, digitsOf_append hw hbehind]
  simp only [hgood, Bool.false_eq_true, if_false]
  by_cases hplaces : places = []
  · subst hplaces
    simp only [if_true]
    cases tail with
    | nil => simp [he]
    | cons c tail =>
        have hdot : c ≠ '.' := (ht c rfl).2
        split
        · rename_i heq
          exact absurd (List.cons.inj heq).1 hdot
        · simp [he]
  · obtain ⟨d, ds, hcons⟩ := List.exists_cons_of_ne_nil hplaces
    simp only [if_neg hplaces]
    rw [digitsOf_append hp fun c hc => (ht c hc).1]
    rw [hcons]
    simp [he]

theorem Ends.tail (h : Ends rest) : ∀ c, rest.head? = some c → c.isDigit = false ∧ c ≠ '.' :=
  fun c hc => ⟨(h c hc).1, (h c hc).2.1⟩

theorem natOf_append_zeros (digits : List Char) (n : Nat) :
    natOf (digits ++ List.replicate n '0') = 10 ^ n * natOf digits := by
  rw [natOf_eq, Nat.ofDigitChars_append, Nat.ofDigitChars_replicate_zero, natOf_eq]

theorem natOf_zeros_append (n : Nat) (digits : List Char) :
    natOf (List.replicate n '0' ++ digits) = natOf digits := by
  rw [natOf_eq, Nat.ofDigitChars_append, Nat.ofDigitChars_replicate_zero, Nat.mul_zero, natOf_eq]

theorem head?_toDigits {n : Nat} (h : n ≠ 0) : (Nat.toDigits 10 n).head? ≠ some '0' := by
  induction n using Nat.strongRecOn with
  | ind n ih =>
      rw [Nat.toDigits_eq_if (by decide)]
      split
      · intro hhead
        have hdigit : ∀ n < 10, n ≠ 0 → Nat.digitChar n ≠ '0' := by decide
        exact hdigit n ‹_› h (by simpa using hhead)
      · rw [List.head?_append_of_ne_nil _ Nat.toDigits_ne_nil]
        exact ih (n / 10) (by omega) (by omega)

/-- Digits that are laid out are read as digits with the same value. -/
theorem unsigned?_layOut (negative : Bool) (hd : ∀ c ∈ digits, c.isDigit = true)
    (hne : digits ≠ []) (hhead : digits.head? ≠ some '0') (hr : Ends rest) (point : Int) :
    ∃ (d : Nat) (e : Int),
      d * Number.powerOfTen e = natOf digits * Number.powerOfTen (point - digits.length) ∧
      unsigned? negative (Number.layOut digits point ++ rest) =
        some (.ofDigits negative d e, rest) := by
  have hzero : Char.isDigit '0' = true := by decide
  have hzeros (n : Nat) : ∀ c ∈ List.replicate n '0', c.isDigit = true := by
    intro c hc
    rw [(List.mem_replicate.mp hc).2]
    exact hzero
  have hexp (e : Int) := exponent?_some hr e
  have htail (e : Int) (c : Char) (hc : ('e' :: (if e < 0 then '-' else '+') ::
      (Nat.toDigits 10 e.natAbs ++ rest)).head? = some c) : c.isDigit = false ∧ c ≠ '.' := by
    cases hc
    decide
  rw [Number.layOut]
  split
  · rename_i hlong
    rw [Bool.and_eq_true, decide_eq_true_eq, decide_eq_true_eq] at hlong
    obtain ⟨k, hk⟩ := Int.eq_ofNat_of_zero_le (sub_nonneg.mpr hlong.1)
    have hparts := unsigned?_parts negative (digits ++ List.replicate k '0') []
      (fun c hc => (List.mem_append.mp hc).elim (hd c) (hzeros k c)) (by simp [hne])
      (fun h => absurd (by rwa [List.head?_append_of_ne_nil _ hne] at h) hhead) nofun hr.tail
      (exponent?_none hr)
    rw [if_pos rfl, List.append_nil] at hparts
    refine ⟨_, _, ?_, by rw [hk, Int.toNat_natCast]; exact hparts⟩
    rw [natOf_append_zeros, hk, Number.powerOfTen_eq, Number.powerOfTen_eq]
    push_cast
    rw [List.length_nil, Nat.cast_zero, sub_zero, zpow_zero, mul_one, zpow_natCast, mul_comm]
  · split
    · rename_i hshort hinside
      rw [Bool.and_eq_true, decide_eq_true_eq, decide_eq_true_eq] at hshort hinside
      obtain ⟨k, rfl⟩ := Int.eq_ofNat_of_zero_le hinside.1.le
      rw [Int.toNat_natCast] at *
      have hk : k < digits.length := by omega
      have htake : digits.take k ≠ [] := by
        rw [ne_eq, List.take_eq_nil_iff, not_or]
        exact ⟨by omega, hne⟩
      have hdrop : digits.drop k ≠ [] := by
        rw [ne_eq, List.drop_eq_nil_iff]
        omega
      have hparts := unsigned?_parts negative (digits.take k) (digits.drop k)
        (fun c hc => hd c (List.mem_of_mem_take hc)) htake
        (fun h => absurd (by rwa [List.head?_take, if_neg (by omega)] at h) hhead)
        (fun c hc => hd c (List.mem_of_mem_drop hc)) hr.tail (exponent?_none hr)
      rw [if_neg hdrop, List.take_append_drop] at hparts
      refine ⟨_, _, ?_, by rw [List.append_assoc, List.cons_append]; exact hparts⟩
      rw [List.length_drop, Nat.cast_sub hk.le]
      congr 2
      ring
    · split
      · rename_i hsmall
        rw [Bool.and_eq_true, decide_eq_true_eq, decide_eq_true_eq] at hsmall
        obtain ⟨k, hk⟩ := Int.eq_ofNat_of_zero_le (neg_nonneg.mpr hsmall.2)
        have hparts := unsigned?_parts negative ['0'] (List.replicate k '0' ++ digits)
          (fun c hc => by rw [List.mem_singleton.mp hc]; exact hzero) (by simp) (fun _ => rfl)
          (fun c hc => (List.mem_append.mp hc).elim (hzeros k c) (hd c)) hr.tail
          (exponent?_none hr)
        have hvalue : natOf (['0'] ++ (List.replicate k '0' ++ digits)) = natOf digits := by
          rw [← List.append_assoc]
          exact natOf_zeros_append (k + 1) digits
        rw [if_neg (by simp [hne]), hvalue, List.length_append, List.length_replicate] at hparts
        refine ⟨_, _, ?_, by rw [hk, Int.toNat_natCast]; exact hparts⟩
        congr 2
        push_cast
        omega
      · obtain ⟨d, ds, rfl⟩ := List.exists_cons_of_ne_nil hne
        have hparts := unsigned?_parts negative [d] ds
          (fun c hc => hd c (by rw [List.mem_singleton.mp hc]; exact List.mem_cons_self)) (by simp)
          (fun _ => rfl) (fun c hc => hd c (List.mem_cons_of_mem _ hc)) (htail (point - 1))
          (hexp (point - 1))
        refine ⟨natOf (d :: ds), point - 1 - ds.length, ?_, ?_⟩
        · rw [List.length_cons]
          congr 2
          push_cast
          ring
        · cases ds with
          | nil => exact hparts
          | cons d' ds =>
              rw [if_neg (by simp)] at hparts
              refine (congrArg (unsigned? negative) ?_).trans hparts
              simp

/-- The digits of a number without the zeros at the end. -/
theorem significant_spec {n : Nat} (h : n ≠ 0) :
    ∃ digits zeros, Nat.toDigits 10 n = digits ++ List.replicate zeros '0' ∧
      ((Nat.toDigits 10 n).reverse.dropWhile (· == '0')).reverse = digits ∧ digits ≠ [] ∧
      digits.head? ≠ some '0' ∧ (∀ c ∈ digits, c.isDigit = true) ∧ n = 10 ^ zeros * natOf digits := by
  have hsplit : Nat.toDigits 10 n =
      ((Nat.toDigits 10 n).reverse.dropWhile (· == '0')).reverse ++
        ((Nat.toDigits 10 n).reverse.takeWhile (· == '0')).reverse := by
    rw [← List.reverse_append, List.takeWhile_append_dropWhile, List.reverse_reverse]
  have hzeros : (Nat.toDigits 10 n).reverse.takeWhile (· == '0') =
      List.replicate ((Nat.toDigits 10 n).reverse.takeWhile (· == '0')).length '0' := by
    refine List.eq_replicate_iff.mpr ⟨rfl, fun c hc => ?_⟩
    simpa using List.all_eq_true.mp List.all_takeWhile c hc
  rw [hzeros, List.reverse_replicate] at hsplit
  generalize ((Nat.toDigits 10 n).reverse.takeWhile (· == '0')).length = zeros at hsplit
  generalize ((Nat.toDigits 10 n).reverse.dropWhile (· == '0')).reverse = digits at hsplit ⊢
  have hvalue : n = 10 ^ zeros * natOf digits := by
    rw [← natOf_append_zeros, ← hsplit]
    exact Nat.ofDigitChars_ten_toDigits.symm
  have hne : digits ≠ [] := by
    rintro rfl
    rw [show natOf [] = 0 from rfl, Nat.mul_zero] at hvalue
    exact h hvalue
  refine ⟨digits, zeros, hsplit, rfl, hne, ?_, fun c hc => ?_, hvalue⟩
  · have hhead := head?_toDigits h
    rwa [hsplit, List.head?_append_of_ne_nil _ hne] at hhead
  · have hmem : c ∈ Nat.toDigits 10 n := hsplit ▸ List.mem_append_left _ hc
    exact Nat.isDigit_of_mem_toDigits (by decide) (by decide) hmem

/-- The text of a positive number is read as digits that stand for it. -/
theorem unsigned?_positiveText {q : Rat} (h : Number.Fits q) (hr : Ends rest) (negative : Bool) :
    unsigned? negative (Number.positiveText q ++ rest) =
      some (if negative then .finite (-q) else .finite q, rest) := by
  have hs := h.spells_shortest
  obtain ⟨digits, zeros, hsplit, hsig, hne, hhead, hd, hvalue⟩ :=
    significant_spec (hs.digits_ne_zero h)
  obtain ⟨d, e, hde, hx⟩ := unsigned?_layOut negative hd hne hhead hr
    ((Number.shortest q).exponent + (Nat.toDigits 10 (Number.shortest q).digits).length)
  have hread : Number.ofDigits false d e = .finite q := by
    refine hs.ofDigits h ?_
    rw [hde, hsplit, List.length_append, List.length_replicate]
    rw [hvalue]
    push_cast
    rw [Number.powerOfTen_eq, Number.powerOfTen_eq, mul_comm ((10 : Rat) ^ zeros), mul_assoc,
      ← zpow_natCast, ← zpow_add₀ (by norm_num)]
    congr 2
    ring
  rw [Number.positiveText, hsig, hx]
  cases negative with
  | false => rw [hread]; rfl
  | true =>
      have hneg : Number.ofDigits true d e = (Number.ofDigits false d e).neg := rfl
      rw [hneg, hread]
      rfl

theorem positiveText_ne_minus {q : Rat} (h : Number.Fits q) :
    ∃ c text, Number.positiveText q = c :: text ∧ c ≠ '-' := by
  cases hx : Number.positiveText q with
  | nil =>
      have hread := unsigned?_positiveText h ends_nil false
      rw [hx] at hread
      cases hread
  | cons c text =>
      refine ⟨c, text, rfl, ?_⟩
      rintro rfl
      have hread := unsigned?_positiveText h ends_nil false
      rw [hx, unsigned?, digitsOf] at hread
      cases hread

/-- A number that is not rounded any more reads back from its text. -/
theorem number?_text {q : Rat} (h : Number.ofRat q = .finite q) (hr : Ends rest) :
    number? ((Number.text (.finite q)).toList ++ rest) = some (.finite q, rest) := by
  rcases lt_trichotomy q 0 with hq | rfl | hq
  · have hfits : Number.Fits (-q) := by
      refine ⟨by linarith, ?_⟩
      rw [Number.ofRat_neg, h]
      rfl
    rw [Number.text, if_neg hq.ne, if_pos hq, String.toList_ofList, List.cons_append,
      number?_minus, unsigned?_positiveText hfits hr, if_pos rfl, neg_neg]
  · have hzero := unsigned?_parts false ['0'] [] (by simp) (by simp) (by simp) nofun hr.tail
      (exponent?_none hr)
    rw [Number.text, if_pos rfl]
    exact hzero
  · obtain ⟨c, text, hx, hc⟩ := positiveText_ne_minus ⟨hq, h⟩
    have hread := unsigned?_positiveText ⟨hq, h⟩ hr false
    rw [Number.text, if_neg hq.ne', if_neg (not_lt.mpr hq.le), String.toList_ofList, hx,
      List.cons_append, number?_of_ne hc, ← List.cons_append, ← hx, hread]
    rfl

end ScriptPack.Json

namespace ScriptPack.Number

/-- Numbers that are not rounded any more are told apart by their texts. -/
theorem text_injective {a b : Number} (ha : a.IsRounded) (hb : b.IsRounded)
    (h : a.text = b.text) : a = b := by
  have hread {n : Number} {q : Rat} (hn : n.IsRounded) (hq : n = finite q) :
      Json.number? n.text.toList = some (n, []) := by
    have hx := Json.number?_text (hn q hq) Json.ends_nil
    rwa [List.append_nil, ← hq] at hx
  have hnan : Json.number? (text nan).toList = none := by decide +kernel
  have hinf (negative : Bool) : Json.number? (text (infinite negative)).toList = none := by
    cases negative <;> decide +kernel
  cases a with
  | finite q =>
      have hx := hread ha rfl
      rw [h] at hx
      cases b with
      | finite r => simpa using hx.symm.trans (hread hb rfl)
      | nan => cases hx.symm.trans hnan
      | infinite negative => cases hx.symm.trans (hinf negative)
  | nan =>
      cases b with
      | finite r => cases (hread hb rfl).symm.trans (h ▸ hnan)
      | nan => rfl
      | infinite negative => cases negative <;> exact absurd h (by decide)
  | infinite negative =>
      cases b with
      | finite r => cases (hread hb rfl).symm.trans (h ▸ hinf negative)
      | nan => cases negative <;> exact absurd h (by decide)
      | infinite other => cases negative <;> cases other <;> first | rfl | exact absurd h (by decide)

end ScriptPack.Number

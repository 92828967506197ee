import Mathlib.Data.Bool.AllAny
import Mathlib.Data.List.Basic
import ScriptPack.Number.Decimal

/-!
The characters of which the texts of numbers are made.
-/

namespace ScriptPack.Number

/-- A character that the text of a number may have. -/
def IsTextChar (c : Char) : Prop := c.isDigit = true ∨ c ∈ "NaInfity.e+-".toList

instance (c : Char) : Decidable (IsTextChar c) := inferInstanceAs (Decidable (_ ∨ _))

variable {c : Char} {digits : List Char}

theorem isTextChar_of_mem_toDigits {n : Nat} (h : c ∈ Nat.toDigits 10 n) : IsTextChar c :=
  .inl (Nat.isDigit_of_mem_toDigits (by decide) (by decide) h)

theorem isTextChar_of_mem_exponent {e : Int} {n : Nat}
    (h : c ∈ 'e' :: (if e < 0 then '-' else '+') :: Nat.toDigits 10 n) : IsTextChar c := by
  rcases List.mem_cons.mp h with rfl | h
  · decide
  · rcases List.mem_cons.mp h with rfl | h
    · split <;> decide
    · exact isTextChar_of_mem_toDigits h

theorem isTextChar_of_mem_layOut {point : Int} (hd : ∀ c ∈ digits, IsTextChar c)
    (h : c ∈ layOut digits point) : IsTextChar c := by
  have hzero {n} (hc : c ∈ List.replicate n '0') : IsTextChar c := by
    rw [(List.mem_replicate.mp hc).2]
    decide
  rw [layOut] at h
  split at h
  · exact (List.mem_append.mp h).elim (hd c) hzero
  · split at h
    · rcases List.mem_append.mp h with h | h
      · exact hd c (List.mem_of_mem_take h)
      · rcases List.mem_cons.mp h with rfl | h
        · decide
        · exact hd c (List.mem_of_mem_drop h)
    · split at h
      · rcases List.mem_cons.mp h with rfl | h
        · decide
        · rcases List.mem_cons.mp h with rfl | h
          · decide
          · exact (List.mem_append.mp h).elim hzero (hd c)
      · simp only at h
        split at h
        · exact isTextChar_of_mem_exponent h
        · rcases List.mem_cons.mp h with rfl | h
          · exact hd c List.mem_cons_self
          · exact isTextChar_of_mem_exponent h
        · rcases List.mem_cons.mp h with rfl | h
          · exact hd c List.mem_cons_self
          · rcases List.mem_cons.mp h with rfl | h
            · decide
            · rcases List.mem_append.mp h with h | h
              · exact hd c (List.mem_cons_of_mem _ h)
              · exact isTextChar_of_mem_exponent h

theorem isTextChar_of_mem_positiveText {q : Rat} (h : c ∈ positiveText q) : IsTextChar c := by
  refine isTextChar_of_mem_layOut (fun c hc => ?_) h
  rw [List.mem_reverse] at hc
  have hmem := (List.dropWhile_sublist _).mem hc
  exact isTextChar_of_mem_toDigits (List.mem_reverse.mp hmem)

theorem isTextChar_of_mem_text {n : Number} (h : c ∈ n.text.toList) : IsTextChar c := by
  cases n with
  | nan =>
      have hall : ∀ c ∈ "NaN".toList, IsTextChar c := List.all_iff_forall_prop.mp (by decide)
      exact hall c h
  | infinite negative =>
      have hall : ∀ c ∈ (text (.infinite negative)).toList, IsTextChar c := by
        rw [← List.all_iff_forall_prop]
        cases negative <;> decide
      exact hall c h
  | finite q =>
      rw [text] at h
      split at h
      · have hall : ∀ c ∈ "0".toList, IsTextChar c := List.all_iff_forall_prop.mp (by decide)
        exact hall c h
      · split at h
        · rw [String.toList_ofList] at h
          rcases List.mem_cons.mp h with rfl | h
          · decide
          · exact isTextChar_of_mem_positiveText h
        · rw [String.toList_ofList] at h
          exact isTextChar_of_mem_positiveText h

end ScriptPack.Number

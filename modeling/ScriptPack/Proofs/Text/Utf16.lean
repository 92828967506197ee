import ScriptPack.Text.Utf16

/-!
The order of texts by their code units is a strict total one: two texts with the same units are the
same text. So a list of different texts that is sorted is in strictly ascending order.
-/

namespace ScriptPack.Text.Utf16

variable {a b c : Char} {s t u : List Char} {x y z : List Nat}

/-- A unit of a character in the basic plane is no surrogate. -/
theorem not_surrogate (c : Char) : c.toNat < 0xd800 ∨ 0xdfff < c.toNat ∧ c.toNat < 0x110000 :=
  c.valid

/-- The units of a character can be told apart from what follows them. -/
theorem unitsOf_append (h : unitsOf a ++ x = unitsOf b ++ y) : a = b ∧ x = y := by
  have ha := not_surrogate a
  have hb := not_surrogate b
  simp only [unitsOf] at h
  have hchar (hn : a.toNat = b.toNat) : a = b := Char.toNat_inj.mp hn
  split at h <;> split at h <;>
    simp only [List.cons_append, List.nil_append, List.cons.injEq] at h
  · exact ⟨hchar h.1, h.2⟩
  · omega
  · omega
  · exact ⟨hchar (by omega), h.2.2⟩

theorem flatMap_unitsOf_injective : Function.Injective (List.flatMap unitsOf) := by
  have hne (c : Char) (x : List Nat) : unitsOf c ++ x ≠ [] := by
    rw [unitsOf]
    split <;> simp
  intro s
  induction s with
  | nil =>
      intro t h
      cases t with
      | nil => rfl
      | cons b t => exact absurd (List.flatMap_cons ▸ h).symm (hne b _)
  | cons a s ih =>
      intro t h
      cases t with
      | nil => exact absurd (List.flatMap_cons ▸ h) (hne a _)
      | cons b t =>
          simp only [List.flatMap_cons] at h
          obtain ⟨rfl, hrest⟩ := unitsOf_append h
          rw [ih hrest]

theorem units_injective : Function.Injective units := fun _ _ h =>
  String.toList_inj.mp (flatMap_unitsOf_injective h)

/-! ### The order of lists of units -/

theorem lessUnits_irrefl (x : List Nat) : lessUnits x x = false := by
  induction x with
  | nil => rfl
  | cons a x ih => simp [lessUnits, ih]

theorem lessUnits_trans (h : lessUnits x y = true) (h' : lessUnits y z = true) :
    lessUnits x z = true := by
  induction x generalizing y z with
  | nil => cases y <;> cases z <;> simp_all [lessUnits]
  | cons a x ih =>
      cases y with
      | nil => cases h
      | cons b y =>
          cases z with
          | nil => cases h'
          | cons c z =>
              simp only [lessUnits, beq_iff_eq] at h h' ⊢
              split at h
              · subst b
                split at h'
                · rw [if_pos ‹_›]
                  exact ih h h'
                · rw [if_neg ‹_›]
                  exact h'
              · have hab := of_decide_eq_true h
                split at h'
                · subst c
                  rw [if_neg ‹_›]
                  exact h
                · have hbc := of_decide_eq_true h'
                  rw [if_neg (by omega), decide_eq_true_iff]
                  omega

theorem lessUnits_total (hne : x ≠ y) : lessUnits x y = true ∨ lessUnits y x = true := by
  induction x generalizing y with
  | nil =>
      cases y with
      | nil => exact absurd rfl hne
      | cons b y => exact .inl rfl
  | cons a x ih =>
      cases y with
      | nil => exact .inr rfl
      | cons b y =>
          by_cases hab : a = b
          · subst b
            simpa [lessUnits] using ih fun h => hne (h ▸ rfl)
          · simp only [lessUnits, beq_iff_eq, if_neg hab, if_neg (Ne.symm hab),
              decide_eq_true_iff]
            omega

/-! ### Sorted texts -/

theorem less_irrefl (a : String) : less a a = false := lessUnits_irrefl _

theorem less_trans {a b c : String} (h : less a b = true) (h' : less b c = true) :
    less a c = true := lessUnits_trans h h'

theorem less_total {a b : String} (hne : a ≠ b) : less a b = true ∨ less b a = true :=
  lessUnits_total fun h => hne (units_injective h)

/-- Texts in strictly ascending order of their units. -/
def Ascending (texts : List String) : Prop := texts.Pairwise (less · ·)

theorem Ascending.nodup {texts : List String} (h : Ascending texts) : texts.Nodup :=
  h.imp fun hab heq => by
    rw [heq, less_irrefl] at hab
    cases hab

theorem Ascending.filter {texts : List String} (h : Ascending texts) (keep : String → Bool) :
    Ascending (texts.filter keep) := List.Pairwise.filter keep h

theorem mem_sort {text : String} {texts : List String} : text ∈ sort texts ↔ text ∈ texts :=
  List.mem_mergeSort

/-- Sorting different texts puts them in strictly ascending order. -/
theorem ascending_sort {texts : List String} (h : texts.Nodup) : Ascending (sort texts) := by
  have hsorted : (sort texts).Pairwise fun a b => (!less b a) = true := by
    refine List.pairwise_mergeSort (fun a b c hab hbc => ?_) (fun a b => ?_) texts
    · simp only [Bool.not_eq_true'] at hab hbc ⊢
      cases hca : less c a with
      | false => rfl
      | true =>
          by_cases heq : a = b
          · rw [← hca, heq, hbc]
          · rw [← hbc, less_trans hca ((less_total heq).resolve_right (by simp [hab]))]
    · cases hba : less b a with
      | false => rfl
      | true =>
          cases hab : less a b with
          | false => rfl
          | true =>
              have hloop := less_trans hab hba
              rw [less_irrefl] at hloop
              cases hloop
  have hnodup : (sort texts).Nodup := (List.mergeSort_perm texts _).nodup_iff.mpr h
  refine (hsorted.and hnodup).imp fun ⟨hle, hne⟩ => ?_
  exact (less_total hne).resolve_right (by simpa using hle)

/-- A surrogate unit comes before the end of the basic plane. -/
example : less "😀" "～" = true := by decide

end ScriptPack.Text.Utf16

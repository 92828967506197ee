import Mathlib.Data.List.Nodup

/-!
A list without repetitions: each element stays where it is first met.
-/

namespace ScriptPack

variable {α : Type} [BEq α] [LawfulBEq α]

theorem nodup_eraseDups (all : List α) : all.eraseDups.Nodup := by
  cases all with
  | nil => exact .nil
  | cons a rest =>
      rw [List.eraseDups_cons, List.nodup_cons]
      refine ⟨fun hmem => ?_, nodup_eraseDups _⟩
      have hne := (List.mem_filter.mp (List.mem_eraseDups.mp hmem)).2
      simp at hne
termination_by all.length
decreasing_by exact Nat.lt_succ_of_le (List.length_filter_le ..)

theorem filter_eraseDups (p : α → Bool) (all : List α) :
    all.eraseDups.filter p = (all.filter p).eraseDups := by
  cases all with
  | nil => rfl
  | cons a rest =>
      have ih := filter_eraseDups p (rest.filter fun b => !b == a)
      rw [List.eraseDups_cons, List.filter_cons, List.filter_cons, ih, List.filter_filter]
      split
      · rw [List.eraseDups_cons, List.filter_filter]
        simp only [Bool.and_comm]
      · rename_i hp
        congr 1
        refine List.filter_congr fun b _ => ?_
        by_cases h : b = a
        · subst h
          simp [hp]
        · simp [h]
termination_by all.length
decreasing_by exact Nat.lt_succ_of_le (List.length_filter_le ..)

end ScriptPack

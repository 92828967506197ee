import Mathlib.Data.List.Nodup
import ScriptPack.Proofs.Distinct
import ScriptPack.Python.Automaton

/-!
The productions of the grammar, told apart by what they say: a production is an alternative of a
nonterminal together with the place of this alternative among all of them.
-/

namespace ScriptPack.Python

namespace Nonterminal

theorem ctorIdx_lt (x : Nonterminal) : x.ctorIdx < count := by
  cases x <;> decide

theorem ctorIdx_injective {x y : Nonterminal} (h : x.ctorIdx = y.ctorIdx) : x = y := by
  rw [← ofNat_ctorIdx x, ← ofNat_ctorIdx y, h]

theorem getElem?_all (x : Nonterminal) : all[x.ctorIdx]? = some x := by
  rw [all, List.getElem?_map, List.getElem?_range x.ctorIdx_lt, Option.map_some, ofNat_ctorIdx]

theorem mem_all (x : Nonterminal) : x ∈ all := List.mem_of_getElem? x.getElem?_all

theorem nodup_all : all.Nodup := by decide +kernel

end Nonterminal

namespace Symbol

theorem index_lt (s : Symbol) : s.index < count := by
  cases s with
  | terminal t => cases t <;> decide
  | nonterminal x => exact Nat.add_lt_add_left x.ctorIdx_lt _

theorem index_injective {s u : Symbol} (h : s.index = u.index) : s = u := by
  have hlt (t : Terminal) : t.ctorIdx < Terminal.count := by cases t <;> decide
  cases s with
  | terminal t =>
      cases u with
      | terminal v =>
          have h : t.ctorIdx = v.ctorIdx := h
          rw [← Terminal.ofNat_ctorIdx t, ← Terminal.ofNat_ctorIdx v, h]
      | nonterminal y =>
          have := hlt t
          simp only [index] at h
          omega
  | nonterminal x =>
      cases u with
      | terminal v =>
          have := hlt v
          simp only [index] at h
          omega
      | nonterminal y => rw [Nonterminal.ctorIdx_injective (Nat.add_left_cancel h)]

end Symbol

namespace Grammar

/-- The alternatives of all nonterminals, in the order of the productions. -/
def alternatives : List (Nonterminal × List Step) :=
  Nonterminal.all.flatMap fun x => (rule x).eraseDups.map fun steps => (x, steps)

variable {x y : Nonterminal} {steps steps' : List Step}

theorem mem_alternatives : (x, steps) ∈ alternatives ↔ steps ∈ rule x := by
  simp [alternatives, List.mem_eraseDups, Nonterminal.mem_all]

theorem nodup_alternatives : alternatives.Nodup := by
  refine List.nodup_flatMap.mpr ⟨fun x _ => ?_, ?_⟩
  · exact (nodup_eraseDups _).map fun _ _ h => (Prod.mk.inj h).2
  · refine Nonterminal.nodup_all.imp fun {x y} hne a hx hy => ?_
    obtain ⟨_, -, rfl⟩ := List.mem_map.mp hx
    obtain ⟨_, -, h⟩ := List.mem_map.mp hy
    exact hne (Prod.mk.inj h).1.symm

/-- The production of an alternative. -/
def production (x : Nonterminal) (steps : List Step) : Production :=
  ⟨alternatives.idxOf (x, steps), x, steps⟩

theorem zipIdx_eq {α : Type} [BEq α] [LawfulBEq α] {all : List α} (h : all.Nodup) :
    all.zipIdx = all.map fun a => (a, all.idxOf a) := by
  refine List.ext_getElem (by simp) fun i hi hi' => ?_
  simp [h.idxOf_getElem]

theorem productions_eq :
    productions = alternatives.map fun (x, steps) => production x steps := by
  rw [productions, ← alternatives, numbered, zipIdx_eq nodup_alternatives, List.map_map]
  exact List.map_congr_left fun ⟨_, _⟩ _ => rfl

theorem mem_productions {p : Production} :
    p ∈ productions ↔ ∃ x, ∃ steps ∈ rule x, p = production x steps := by
  rw [productions_eq, List.mem_map]
  constructor
  · rintro ⟨⟨x, steps⟩, hmem, rfl⟩
    exact ⟨x, steps, mem_alternatives.mp hmem, rfl⟩
  · rintro ⟨x, steps, hmem, rfl⟩
    exact ⟨(x, steps), mem_alternatives.mpr hmem, rfl⟩

theorem sameCore_production (h : steps ∈ rule x) (dot dot' : Nat) (follow follow' : TokenSet) :
    Item.sameCore ⟨production x steps, dot, follow⟩ ⟨production y steps', dot', follow'⟩ =
      ((x, steps) == (y, steps') && dot == dot') := by
  rw [Item.sameCore]
  congr 1
  rw [Bool.eq_iff_iff, beq_iff_eq, beq_iff_eq]
  exact List.idxOf_inj (mem_alternatives.mpr h)

end Grammar

end ScriptPack.Python

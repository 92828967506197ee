import ScriptPack.Proofs.Python.Productions

/-!
What stands at the front of a phrase. The tables of the automaton are filled in rounds until nothing
changes. What every round keeps bounds them from above; a chain of productions that is no longer than
the number of rounds shows what is in them.
-/

namespace ScriptPack.Python

namespace TokenSet

@[simp] theorem contains_empty (t : Terminal) : (∅ : TokenSet).contains t = false :=
  Nat.zero_testBit _

@[simp] theorem contains_singleton (t u : Terminal) : (singleton t).contains u = (t == u) := by
  rw [contains, singleton, Nat.one_shiftLeft, Nat.testBit_two_pow, Bool.eq_iff_iff, beq_iff_eq,
    decide_eq_true_iff]
  refine ⟨fun h => ?_, congrArg _⟩
  rw [← Terminal.ofNat_ctorIdx t, ← Terminal.ofNat_ctorIdx u, h]

@[simp] theorem contains_union (a b : TokenSet) (t : Terminal) :
    (a ∪ b).contains t = (a.contains t || b.contains t) :=
  Nat.testBit_or ..

theorem empty_union (a : TokenSet) : ∅ ∪ a = a :=
  congrArg mk (Nat.zero_or a.bits)

end TokenSet

/-! ### Tables that are filled in rounds -/

theorem getD_modify {α : Type} (table : Array α) (f : α → α) (i j : Nat) (d : α) :
    (table.modify i f).getD j d =
      if i = j ∧ j < table.size then f (table.getD j d) else table.getD j d := by
  simp only [Array.getD_eq_getD_getElem?, Array.getElem?_modify]
  by_cases hi : i = j
  · subst hi
    by_cases hj : i < table.size
    · simp [hj]
    · simp [hj]
  · simp [hi]

/-- In a fold whose steps only add, every element has its turn. -/
theorem foldl_passes {α β : Type} {f : β → α → β} {le : β → β → Prop} (refl : ∀ b, le b b)
    (trans : ∀ {a b c}, le a b → le b c → le a c) (grows : ∀ b a, le b (f b a)) (all : List α)
    (b : β) : le b (all.foldl f b) ∧ ∀ a ∈ all, ∃ c, le b c ∧ le (f c a) (all.foldl f b) := by
  induction all generalizing b with
  | nil => exact ⟨refl b, nofun⟩
  | cons first rest ih =>
      obtain ⟨hle, hturn⟩ := ih (f b first)
      refine ⟨trans (grows b first) hle, fun a ha => ?_⟩
      rcases List.mem_cons.mp ha with rfl | ha
      · exact ⟨b, refl b, hle⟩
      · obtain ⟨c, hc, hc'⟩ := hturn a ha
        exact ⟨c, trans (grows b first) hc, hc'⟩

namespace Automaton

open Grammar

variable {α : Type} [BEq α] {f : α → α} {n k : Nat} {a : α}

theorem settle_induct {P : α → Prop} (h : ∀ b, P b → P (f b)) (ha : P a) : P (settle f n a) := by
  induction n generalizing a with
  | zero => exact ha
  | succ n ih =>
      rw [settle]
      split
      · exact ha
      · exact ih (h a ha)

/-- What holds after a number of rounds holds in the end, if fewer rounds were needed as well. -/
theorem settle_reaches [LawfulBEq α] {R : Nat → α → Prop} (h : ∀ k b, R k b → R (k + 1) (f b))
    (ha : R k a) : R (k + n) (settle f n a) := by
  induction n generalizing k a with
  | zero => exact ha
  | succ n ih =>
      rw [settle]
      split
      · rename_i hsame
        have hkeep (j : Nat) : R (k + j) a := by
          induction j with
          | zero => exact ha
          | succ j ihj =>
              have := h _ _ ihj
              rwa [eq_of_beq hsame] at this
        exact hkeep (n + 1)
      · have := ih (h k a ha)
        rwa [Nat.add_right_comm, Nat.add_assoc] at this

/-! ### First terminals -/

variable {x y : Nonterminal} {s : Symbol} {t : Terminal}

/-- A symbol begins an alternative of a nonterminal. -/
def Opens (x : Nonterminal) (s : Symbol) : Prop :=
  ∃ step rest, step :: rest ∈ rule x ∧ step.symbol = s

/-- A terminal begins a phrase, by a chain of productions of bounded length. -/
inductive Begins : Nat → Nonterminal → Terminal → Prop
  | terminal {x : Nonterminal} {t : Terminal} (k : Nat) (h : Opens x (.terminal t)) :
    Begins (k + 1) x t
  | nonterminal {k : Nat} {x y : Nonterminal} {t : Terminal} (h : Opens x (.nonterminal y))
    (hy : Begins k y t) : Begins (k + 1) x t

theorem Begins.mono (h : Begins k x t) (hle : k ≤ n) : Begins n x t := by
  induction h generalizing n with
  | terminal k h =>
      obtain ⟨n, rfl⟩ := Nat.exists_eq_add_of_le hle
      rw [Nat.add_right_comm]
      exact .terminal _ h
  | nonterminal h _ ih =>
      obtain ⟨n, rfl⟩ := Nat.exists_eq_add_of_le hle
      rw [Nat.add_right_comm]
      exact .nonterminal h (ih (Nat.le_add_right ..))

/-- A production adds the first terminals of its first symbol to those of its head. -/
def startStep (table : Array TokenSet) (p : Production) : Array TokenSet :=
  match p.steps with
  | [] => table
  | s :: _ => table.modify p.head.ctorIdx (· ∪ startSet table s.symbol)

theorem startTable_eq : startTable = settle (fun table => productions.foldl startStep table)
    Nonterminal.count (Array.replicate Nonterminal.count ∅) := by
  rw [startTable]
  congr 1

/-- A table with nothing in it but what a relation allows. -/
def Below (B : Nonterminal → Terminal → Prop) (table : Array TokenSet) : Prop :=
  ∀ x t, (table.getD x.ctorIdx ∅).contains t → B x t

theorem starts_within {B : Nonterminal → Terminal → Prop}
    (hterminal : ∀ x t, Opens x (.terminal t) → B x t)
    (hnonterminal : ∀ x y t, Opens x (.nonterminal y) → B y t → B x t)
    (h : (starts (.nonterminal x)).contains t) : B x t := by
  have hall : Below B startTable := by
    rw [startTable_eq]
    refine settle_induct (fun table htable => ?_) ?_
    · refine List.foldlRecOn productions startStep htable fun table htable p hp x t hcontains => ?_
      obtain ⟨y, steps, hsteps, rfl⟩ := mem_productions.mp hp
      cases steps with
      | nil => exact htable x t hcontains
      | cons step rest =>
          rw [startStep, production] at hcontains
          simp only [getD_modify] at hcontains
          split at hcontains
          · rename_i hsame
            cases Nonterminal.ctorIdx_injective hsame.1
            rw [TokenSet.contains_union, Bool.or_eq_true] at hcontains
            rcases hcontains with hcontains | hcontains
            · exact htable _ t hcontains
            · have hopens : Opens x step.symbol := ⟨step, rest, hsteps, rfl⟩
              cases hs : step.symbol with
              | terminal u =>
                  rw [hs] at hcontains hopens
                  rw [startSet, TokenSet.contains_singleton, beq_iff_eq] at hcontains
                  exact hcontains ▸ hterminal _ _ hopens
              | nonterminal z =>
                  rw [hs] at hcontains hopens
                  exact hnonterminal _ z t hopens (htable z t hcontains)
          · exact htable x t hcontains
    · intro x t hcontains
      simp [x.ctorIdx_lt] at hcontains
  exact hall x t h

/-- A table of sets with no more in it than in another one. -/
def Covered (a b : Array TokenSet) : Prop :=
  a.size = b.size ∧ ∀ i t, (a.getD i ∅).contains t → (b.getD i ∅).contains t

theorem covered_startStep (table : Array TokenSet) (p : Production) :
    Covered table (startStep table p) := by
  rw [startStep]
  split
  · exact ⟨rfl, fun _ _ h => h⟩
  · refine ⟨Array.size_modify.symm, fun i t h => ?_⟩
    rw [getD_modify]
    split
    · rw [TokenSet.contains_union, h, Bool.true_or]
    · exact h

theorem starts_of_begins (h : Begins k x t) (hk : k ≤ Nonterminal.count) :
    (starts (.nonterminal x)).contains t := by
  let R (k : Nat) (table : Array TokenSet) : Prop :=
    table.size = Nonterminal.count ∧ ∀ x t, Begins k x t → (table.getD x.ctorIdx ∅).contains t
  have hstep (k : Nat) (table : Array TokenSet) (hR : R k table) :
      R (k + 1) (productions.foldl startStep table) := by
    obtain ⟨hle, hturn⟩ := @foldl_passes _ _ startStep Covered (fun _ => ⟨rfl, fun _ _ h => h⟩)
      (fun h h' => ⟨h.1.trans h'.1, fun i t ht => h'.2 i t (h.2 i t ht)⟩) covered_startStep
      productions table
    refine ⟨hle.1.symm.trans hR.1, fun x t hbegins => ?_⟩
    -- The production at the front of the chain has its turn at a table that has at least the rest.
    have hpass {s : Symbol} (hopens : Opens x s)
        (hset : ∀ table', Covered table table' → (startSet table' s).contains t) :
        ((productions.foldl startStep table).getD x.ctorIdx ∅).contains t := by
      obtain ⟨step, rest, hmem, rfl⟩ := hopens
      obtain ⟨table', hle', hle''⟩ := hturn _ (mem_productions.mpr ⟨x, _, hmem, rfl⟩)
      refine hle''.2 _ _ ?_
      have hlt : x.ctorIdx < table'.size := by
        rw [← hle'.1, hR.1]
        exact x.ctorIdx_lt
      rw [startStep, production]
      simp only
      rw [getD_modify, if_pos ⟨rfl, hlt⟩, TokenSet.contains_union, hset table' hle', Bool.or_true]
    cases hbegins with
    | terminal k hopens =>
        refine hpass hopens fun table' _ => ?_
        rw [startSet, TokenSet.contains_singleton, beq_self_eq_true]
    | @nonterminal _ _ y _ hopens hy =>
        refine hpass hopens fun table' hle' => ?_
        exact hle'.2 _ _ (hR.2 y t hy)
  have hR : R (0 + Nonterminal.count) startTable := by
    rw [startTable_eq]
    refine settle_reaches hstep ⟨Array.size_replicate, fun x t hbegins => ?_⟩
    cases hbegins
  exact hR.2 x t (h.mono (by omega))

end Automaton

end ScriptPack.Python

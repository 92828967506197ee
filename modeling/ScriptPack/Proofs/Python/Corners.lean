import ScriptPack.Proofs.Python.Fronts

/-!
The phrases at the very front of a phrase, with what may follow them there, and the productions that
go on from a state with a symbol.
-/

namespace ScriptPack.Python

namespace Lookahead

/-- There is at least as much behind a phrase. -/
def Includes (a b : Lookahead) : Prop :=
  (∀ t, a.fixed.contains t → b.fixed.contains t) ∧ (a.inherits → b.inherits)

variable {a b c : Lookahead}

theorem Includes.refl (a : Lookahead) : Includes a a := ⟨fun _ h => h, fun h => h⟩

theorem Includes.trans (h : Includes a b) (h' : Includes b c) : Includes a c :=
  ⟨fun t ht => h'.1 t (h.1 t ht), fun hi => h'.2 (h.2 hi)⟩

theorem includes_join_left (a b : Lookahead) : Includes a (a.join b) := by
  refine ⟨fun t ht => ?_, fun hi => ?_⟩
  · rw [join, TokenSet.contains_union, ht, Bool.true_or]
  · rw [join, hi, Bool.true_or]

theorem includes_join_right (a b : Lookahead) : Includes b (a.join b) := by
  refine ⟨fun t ht => ?_, fun hi => ?_⟩
  · rw [join, TokenSet.contains_union, ht, Bool.or_true]
  · rw [join, hi, Bool.or_true]

theorem none_join (a : Lookahead) : none.join a = a := by
  rw [join, none, TokenSet.empty_union, Bool.false_or]

/-- What may follow an inner phrase, given what may follow it in an outer one and what may follow that
in turn. -/
def inside (inner outer : Lookahead) : Lookahead :=
  ⟨inner.resolve outer.fixed, inner.inherits && outer.inherits⟩

theorem contains_resolve (a : Lookahead) (outer : TokenSet) (t : Terminal) :
    (a.resolve outer).contains t = (a.fixed.contains t || (a.inherits && outer.contains t)) := by
  rw [resolve]
  cases a.inherits <;> simp

theorem Includes.inside (h : Includes a b) (inner : Lookahead) :
    Includes (inner.inside a) (inner.inside b) := by
  refine ⟨fun t ht => ?_, fun hi => ?_⟩
  · rw [Lookahead.inside, contains_resolve, Bool.or_eq_true, Bool.and_eq_true] at ht ⊢
    exact ht.imp_right fun ht => ⟨ht.1, h.1 t ht.2⟩
  · rw [Lookahead.inside, Bool.and_eq_true] at hi ⊢
    exact ⟨hi.1, h.2 hi.2⟩

end Lookahead

namespace Automaton

open Grammar
open Lookahead (Includes none_join includes_join_left includes_join_right)

variable {x y z : Nonterminal} {a b : Lookahead} {e : Edge} {k : Nat}

/-- What comes behind a phrase in front of the remaining steps of a production. -/
def behind : List Step → Lookahead
  | [] => ⟨∅, true⟩
  | s :: _ => ⟨starts s.symbol, false⟩

theorem mem_edges : e ∈ edges ↔ ∃ step rest, step :: rest ∈ rule e.outer ∧
    step.symbol = .nonterminal e.inner ∧ e.after = behind rest := by
  rw [edges, List.mem_eraseDups, List.mem_filterMap]
  constructor
  · rintro ⟨p, hp, he⟩
    obtain ⟨x, steps, hsteps, rfl⟩ := mem_productions.mp hp
    simp only [production] at he
    split at he
    · cases he
      exact ⟨_, _, hsteps, rfl, rfl⟩
    · cases he
      exact ⟨_, _, hsteps, rfl, rfl⟩
    · cases he
  · rintro ⟨⟨symbol, level, side⟩, rest, hsteps, rfl, hafter⟩
    refine ⟨_, mem_productions.mpr ⟨_, _, hsteps, rfl⟩, ?_⟩
    obtain ⟨outer, inner, after⟩ := e
    cases hafter
    cases rest <;> rfl

/-! ### The table of corners -/

/-- An edge adds what follows its inner phrase, if the outer one can stand at the front. -/
def cornerStep (table : Array (Option Lookahead)) (e : Edge) : Array (Option Lookahead) :=
  match table.getD e.outer.ctorIdx none with
  | none => table
  | some outer => table.modify e.inner.ctorIdx fun known =>
      some ((known.getD .none).join (e.after.inside outer))

/-- What may follow a phrase at the front of another one, if it can stand there. -/
def corner (x y : Nonterminal) : Option Lookahead := (leftCorners x).getD y.ctorIdx none

/-- The table before the first round. -/
def cornerTable (x : Nonterminal) : Array (Option Lookahead) :=
  (Array.replicate Nonterminal.count none).set! x.ctorIdx (some ⟨∅, true⟩)

theorem leftCorners_eq (x : Nonterminal) : leftCorners x =
    settle (fun table => edges.foldl cornerStep table) Nonterminal.count (cornerTable x) := by
  rw [leftCorners, cornerTable]
  congr 1

theorem getD_cornerTable (x y : Nonterminal) :
    (cornerTable x).getD y.ctorIdx none = if x = y then some ⟨∅, true⟩ else none := by
  by_cases h : x = y
  · subst h
    simp [cornerTable, x.ctorIdx_lt, Array.getD_eq_getD_getElem?]
  · have hne : x.ctorIdx ≠ y.ctorIdx := fun h' => h (Nonterminal.ctorIdx_injective h')
    simp [cornerTable, y.ctorIdx_lt, Array.getD_eq_getD_getElem?, h, hne]

/-- A table with nothing in it but what a relation allows. -/
def Permits (P : Nonterminal → Lookahead → Prop) (table : Array (Option Lookahead)) : Prop :=
  ∀ y a, table.getD y.ctorIdx none = some a → P y a

theorem corner_within {P : Nonterminal → Lookahead → Prop} (hstart : P x ⟨∅, true⟩)
    (hjoin : ∀ y a b, P y a → P y b → P y (a.join b))
    (hedge : ∀ e ∈ edges, ∀ a, P e.outer a → P e.inner (e.after.inside a))
    (h : corner x y = some a) : P y a := by
  have hall : Permits P (leftCorners x) := by
    rw [leftCorners_eq]
    refine settle_induct (fun table htable => ?_) fun y a h => ?_
    · refine List.foldlRecOn edges cornerStep htable fun table htable e he y a h => ?_
      rw [cornerStep] at h
      split at h
      · exact htable y a h
      · rename_i outer houter
        rw [getD_modify] at h
        split at h
        · rename_i hsame
          cases Nonterminal.ctorIdx_injective hsame.1
          have hnew := hedge e he outer (htable _ _ houter)
          cases hknown : table.getD e.inner.ctorIdx none with
          | none =>
              rw [hknown] at h
              cases h
              rwa [Option.getD_none, none_join]
          | some known =>
              rw [hknown] at h
              cases h
              exact hjoin _ _ _ (htable _ _ hknown) hnew
        · exact htable y a h
    · rw [getD_cornerTable] at h
      split at h
      · rename_i hsame
        cases h
        exact hsame ▸ hstart
      · cases h
  exact hall y a h

/-- A phrase stands at the front of another one by a chain of edges. -/
inductive Chain (x : Nonterminal) : Nat → Nonterminal → Lookahead → Prop
  | start (k : Nat) : Chain x k x ⟨∅, true⟩
  | step {k : Nat} {e : Edge} {a : Lookahead} (he : e ∈ edges) (h : Chain x k e.outer a) :
    Chain x (k + 1) e.inner (e.after.inside a)

theorem Chain.mono (h : Chain x k y a) {n : Nat} (hle : k ≤ n) : Chain x n y a := by
  induction h generalizing n with
  | start k => exact .start n
  | step he _ ih =>
      obtain ⟨n, rfl⟩ := Nat.exists_eq_add_of_le hle
      rw [Nat.add_right_comm]
      exact .step he (ih (Nat.le_add_right ..))

/-- A table of the same size in which every entry has at least as much behind it. -/
def Extended (table table' : Array (Option Lookahead)) : Prop :=
  table.size = table'.size ∧ ∀ i, ∀ a ∈ table.getD i none, ∃ b ∈ table'.getD i none, Includes a b

theorem Extended.trans {table table' table'' : Array (Option Lookahead)}
    (h : Extended table table') (h' : Extended table' table'') : Extended table table'' := by
  refine ⟨h.1.trans h'.1, fun i a ha => ?_⟩
  obtain ⟨b, hb, hle⟩ := h.2 i a ha
  obtain ⟨c, hc, hle'⟩ := h'.2 i b hb
  exact ⟨c, hc, hle.trans hle'⟩

theorem extended_cornerStep (table : Array (Option Lookahead)) (e : Edge) :
    Extended table (cornerStep table e) := by
  rw [cornerStep]
  split
  · exact ⟨rfl, fun _ a ha => ⟨a, ha, .refl a⟩⟩
  · rename_i outer _
    refine ⟨Array.size_modify.symm, fun i a ha => ?_⟩
    rw [getD_modify]
    split
    · refine ⟨_, rfl, ?_⟩
      rw [Option.mem_def.mp ha]
      exact includes_join_left a _
    · exact ⟨a, ha, .refl a⟩

theorem corner_of_chain (h : Chain x k y a) (hk : k ≤ Nonterminal.count) :
    ∃ b, corner x y = some b ∧ Includes a b := by
  let R (k : Nat) (table : Array (Option Lookahead)) : Prop :=
    table.size = Nonterminal.count ∧
      ∀ y a, Chain x k y a → ∃ b ∈ table.getD y.ctorIdx none, Includes a b
  have hstep (k : Nat) (table : Array (Option Lookahead)) (hR : R k table) :
      R (k + 1) (edges.foldl cornerStep table) := by
    obtain ⟨hle, hturn⟩ := @foldl_passes _ _ cornerStep Extended
      (fun _ => ⟨rfl, fun _ a ha => ⟨a, ha, .refl a⟩⟩) .trans extended_cornerStep edges table
    refine ⟨hle.1.symm.trans hR.1, fun y a hchain => ?_⟩
    cases hchain with
    | start =>
        obtain ⟨b, hb, hinc⟩ := hR.2 x _ (.start k)
        obtain ⟨c, hc, hinc'⟩ := hle.2 _ b hb
        exact ⟨c, hc, hinc.trans hinc'⟩
    | @step _ e a he hchain =>
        obtain ⟨b, hb, hinc⟩ := hR.2 _ a hchain
        obtain ⟨table', hle', hle''⟩ := hturn e he
        obtain ⟨c, hc, hinc'⟩ := hle'.2 _ b hb
        have hlt : e.inner.ctorIdx < table'.size := by
          rw [← hle'.1, hR.1]
          exact e.inner.ctorIdx_lt
        have hnew : ∃ d ∈ (cornerStep table' e).getD e.inner.ctorIdx none,
            Includes (e.after.inside a) d := by
          rw [cornerStep, Option.mem_def.mp hc]
          simp only
          rw [getD_modify, if_pos ⟨rfl, hlt⟩]
          exact ⟨_, rfl, ((hinc.trans hinc').inside e.after).trans (includes_join_right _ _)⟩
        obtain ⟨d, hd, hinc₂⟩ := hnew
        obtain ⟨d', hd', hinc₃⟩ := hle''.2 _ d hd
        exact ⟨d', hd', hinc₂.trans hinc₃⟩
  have hR : R (0 + Nonterminal.count) (leftCorners x) := by
    rw [leftCorners_eq]
    refine settle_reaches hstep ⟨?_, fun y a hchain => ?_⟩
    · rw [cornerTable, Array.set!_eq_setIfInBounds, Array.size_setIfInBounds, Array.size_replicate]
    · cases hchain
      rw [getD_cornerTable, if_pos rfl]
      exact ⟨_, rfl, .refl _⟩
  exact hR.2 y a (h.mono (by omega))

/-! ### The productions that go on with a symbol -/

/-- An alternative begins with a symbol. -/
def beginsWith (s : Symbol) (steps : List Step) : Bool := steps.head?.any (·.symbol == s)

/-- The alternatives of a nonterminal that begin with a symbol, as productions. -/
def openersOf (y : Nonterminal) (s : Symbol) : List Production :=
  ((rule y).filter (beginsWith s)).eraseDups.map (production y)

/-- A production that goes on with a symbol, with what may follow it. -/
def opening? (x : Nonterminal) (s : Symbol) (p : Production) : Option (Production × Lookahead) :=
  if beginsWith s p.steps then (corner x p.head).map fun after => (p, after) else none

theorem openings_rows (x : Nonterminal) : (openings x).size = Symbol.count ∧
    ∀ s : Symbol, (openings x).getD s.index [] = productions.filterMap (opening? x s) := by
  rw [openings]
  generalize productions = all
  induction all with
  | nil =>
      refine ⟨Array.size_replicate, fun s => ?_⟩
      simp [s.index_lt, Array.getD_eq_getD_getElem?]
  | cons p rest ih =>
      obtain ⟨hsize, hrow⟩ := ih
      rw [List.foldr_cons]
      split
      · rename_i step tail after hsteps hcorner
        refine ⟨by rw [Array.size_modify, hsize], fun s => ?_⟩
        rw [getD_modify, hsize, hrow s]
        by_cases hs : step.symbol = s
        · subst hs
          rw [if_pos ⟨rfl, step.symbol.index_lt⟩, List.filterMap_cons, opening?, hsteps, corner,
            hcorner]
          simp [beginsWith]
        · rw [if_neg fun h => hs (Symbol.index_injective h.1), List.filterMap_cons, opening?, hsteps]
          simp [beginsWith, hs]
      · rename_i hno
        refine ⟨hsize, fun s => ?_⟩
        rw [hrow s, List.filterMap_cons]
        cases hsteps : p.steps with
        | nil => simp [opening?, beginsWith, hsteps]
        | cons step tail =>
            cases hcorner : corner x p.head with
            | none => simp [opening?, hcorner]
            | some after => exact absurd hcorner (hno step tail after hsteps)

theorem openingsWith_eq (x : Nonterminal) (s : Symbol) : openingsWith x s =
    Nonterminal.all.flatMap fun y =>
      (corner x y).toList.flatMap fun after => (openersOf y s).map fun p => (p, after) := by
  have hrow : openingTable.getD x.ctorIdx #[] = openings x := by
    rw [openingTable, Array.getD_eq_getD_getElem?, List.getElem?_toArray, List.getElem?_map,
      x.getElem?_all, Option.map_some, Option.getD_some]
  rw [openingsWith, hrow, (openings_rows x).2, productions_eq,
    List.filterMap_map, alternatives, List.filterMap_flatMap]
  refine List.flatMap_congr fun y _ => ?_
  rw [List.filterMap_map, openersOf, ← filter_eraseDups]
  cases hcorner : corner x y with
  | none =>
      rw [Option.toList_none, List.flatMap_nil, List.filterMap_eq_nil_iff]
      intro steps _
      simp [opening?, production, hcorner]
  | some after =>
      rw [Option.toList_some, List.flatMap_singleton, List.map_map]
      induction (rule y).eraseDups with
      | nil => rfl
      | cons steps rest ih =>
          rw [List.filterMap_cons, ih]
          by_cases hbegins : beginsWith s steps
          · simp [opening?, production, hcorner, hbegins]
          · simp [opening?, production, hbegins]

end Automaton

end ScriptPack.Python

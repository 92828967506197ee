import ScriptPack.Proofs.Python.Stacks

/-!
The trees of the recognizer derive from the grammar: whatever the text, every node that is built has
for its parts a word that the rules of its head allow (`Stack.read_derived`). In particular a phrase
all of whose alternatives open with one keyword has that keyword for its first part
(`Tree.Derived.first`).
-/

namespace ScriptPack.Python

open Grammar Automaton Excerpt

/-! ### Derived trees -/

/-- The words of symbols that a phrase can be made of, with repetitions kept flat: either an
alternative of the phrase, or a word for the phrase with what a repetition adds to it. -/
inductive Derives (x : Nonterminal) : List Symbol → Prop
  | alternative {steps : List Step} (h : steps ∈ rule x) : Derives x (steps.map (·.symbol))
  | again {word : List Symbol} {step : Step} {rest : List Step} (h : Derives x word)
      (hrule : step :: rest ∈ rule x) (hstep : step.symbol = .nonterminal x) :
      Derives x (word ++ rest.map (·.symbol))

/-- If all alternatives of a phrase begin with a symbol, so do all words for it. -/
theorem Derives.first {x : Nonterminal} {s : Symbol} {word : List Symbol} (h : Derives x word)
    (hall : (rule x).all (beginsWith s) = true) : ∃ rest, word = s :: rest := by
  -- A repetition adds to the end of a word, so its front is that of an alternative.
  induction h with
  | alternative hsteps =>
      have hbegins := List.all_eq_true.mp hall _ hsteps
      rw [beginsWith, Option.any_eq_true] at hbegins
      obtain ⟨step, hhead, hstep⟩ := hbegins
      obtain ⟨rest, rfl⟩ := List.head?_eq_some_iff.mp hhead
      exact ⟨rest.map (·.symbol), by rw [List.map_cons, beq_iff_eq.mp hstep]⟩
  | again _ _ _ ih =>
      obtain ⟨rest, rfl⟩ := ih
      exact ⟨rest ++ _, rfl⟩

namespace Tree

/-- Every node of a tree has parts that the grammar allows it. -/
inductive Derived : Tree → Prop
  | leaf (token : Token) : Derived (.leaf token)
  | node {x : Nonterminal} {parts : List Tree}
      (hword : Derives x (parts.reverse.map (·.symbol))) (hparts : ∀ part ∈ parts, Derived part) :
      Derived (.node x parts)

variable {p : Production} {parts : List Tree} {x : Nonterminal} {t : Terminal}

theorem eq_leaf_of_symbol {tree : Tree} (h : tree.symbol = .terminal t) :
    ∃ token, token.kind = t ∧ tree = .leaf token := by
  cases tree with
  | leaf token => exact ⟨token, Symbol.terminal.inj h, rfl⟩
  | node head parts => cases h

/-- A node whose head always begins with the terminal `t` has a token of that kind for its first part. -/
theorem Derived.first (h : Derived (.node x parts))
    (hall : (rule x).all (beginsWith (.terminal t)) = true) :
    ∃ token rest, token.kind = t ∧ parts.reverse = .leaf token :: rest := by
  cases h with
  | node hword _ =>
      obtain ⟨rest, hrest⟩ := hword.first hall
      obtain ⟨tree, trees, hparts, htree, -⟩ := List.map_eq_cons_iff.mp hrest
      obtain ⟨token, hkind, rfl⟩ := eq_leaf_of_symbol htree
      exact ⟨token, trees, hkind, hparts⟩

/-- A closed production of the grammar is derived if its parts are. -/
theorem Derived.close (hp : p ∈ productions)
    (hsymbols : parts.reverse.map (·.symbol) = p.steps.map (·.symbol))
    (hparts : ∀ part ∈ parts, Derived part) : Derived (.close p parts) := by
  have hrule : p.steps ∈ rule p.head := by
    obtain ⟨x, steps, hsteps, rfl⟩ := mem_productions.mp hp
    exact hsteps
  have hplain : Derived (.node p.head parts) := .node (hsymbols ▸ .alternative hrule) hparts
  rw [Tree.close]
  split
  · rename_i hrepeats
    split
    · -- the first part is the repetition so far, to which the others are added
      rename_i head earlier hlast
      obtain ⟨front, rfl⟩ := List.getLast?_eq_some_iff.mp hlast
      obtain ⟨rfl, step, rest, hsteps, hstep, hrest⟩ := repetition_parts hrepeats hsymbols
      rw [hsteps] at hrule
      have hearlier := hparts (.node p.head earlier) (by simp)
      cases hearlier with
      | node hword hparts' =>
          rw [List.dropLast_concat]
          refine .node ?_ fun part hpart => ?_
          · rw [List.reverse_append, List.map_append, hrest]
            exact .again hword hrule hstep
          · rcases List.mem_append.mp hpart with hpart | hpart
            · exact hparts part (List.mem_append_left _ hpart)
            · exact hparts' part hpart
    · exact hplain
  · exact hplain

end Tree

/-! ### States of known productions -/

namespace State

variable {state : State} {i : Item} {s : Symbol} {t : Terminal}

/-- All productions that may be under way are productions of the grammar. -/
def Known (state : State) : Prop := ∀ i ∈ state, i.production ∈ productions

theorem known_initial : Known .initial := by
  intro i hi
  obtain ⟨p, hp, heq⟩ := List.mem_filterMap.mp hi
  split at heq
  · cases heq
    exact hp
  · cases heq

theorem Known.insert (h : Known state) (hi : i.production ∈ productions) :
    Known (state.insert i) := by
  induction state with
  | nil =>
      intro j hj
      rw [List.mem_singleton.mp hj]
      exact hi
  | cons k state ih =>
      have hrest : Known state := fun j hj => h j (List.mem_cons_of_mem _ hj)
      rw [State.insert]
      split
      · exact List.forall_mem_cons.mpr ⟨h k List.mem_cons_self, hrest⟩
      · exact List.forall_mem_cons.mpr ⟨h k List.mem_cons_self, ih hrest⟩

theorem Known.insertAll {items : List Item} (h : Known state)
    (hitems : ∀ i ∈ items, i.production ∈ productions) : Known (state.insertAll items) := by
  have hfold : Known (items.foldl (fun state i => state.insert i) state) :=
    List.foldlRecOn items _ h fun _ hstate i hi => hstate.insert (hitems i hi)
  cases state with
  | nil => exact hitems
  | cons j rest => exact hfold

theorem mem_productions_of_openingsWith {x : Nonterminal} {o : Production × Lookahead}
    (h : o ∈ openingsWith x s) : o.1 ∈ productions := by
  rw [openingsWith_eq] at h
  obtain ⟨y, -, h⟩ := List.mem_flatMap.mp h
  obtain ⟨after, -, h⟩ := List.mem_flatMap.mp h
  obtain ⟨p, hp, rfl⟩ := List.mem_map.mp h
  obtain ⟨steps, hsteps, rfl⟩ := List.mem_map.mp hp
  exact mem_productions.mpr
    ⟨y, steps, (List.mem_filter.mp (List.mem_eraseDups.mp hsteps)).1, rfl⟩

theorem Known.itemStep {reached : State} (h : Known reached) (hi : i.production ∈ productions) :
    Known (itemStep s reached i) := by
  rw [Excerpt.itemStep]
  split
  · exact h
  · rename_i step rest _
    have hshift : Known (if step.symbol == s then State.insert { i with dot := i.dot + 1 } reached
        else reached) := by
      split
      · exact h.insert hi
      · exact h
    simp only
    split
    · exact hshift
    · refine hshift.insertAll fun j hj => ?_
      obtain ⟨o, ho, rfl⟩ := List.mem_map.mp hj
      exact mem_productions_of_openingsWith ho

theorem Known.goto (h : Known state) (s : Symbol) : Known (state.goto s) := by
  rw [goto_eq]
  exact List.foldlRecOn state _ (fun _ hi => nomatch hi) fun _ hreached i hi =>
    hreached.itemStep (h i hi)

theorem mem_of_finishedBefore {p : Production} (h : p ∈ state.finishedBefore t) :
    ∃ i ∈ state, i.production = p := by
  have hfound : p ∈ state.filterMap fun i =>
      if i.isFinished && i.follow.contains t then some i.production else none := by
    rw [finishedBefore] at h
    simp only at h
    generalize List.filterMap _ _ = found at h ⊢
    cases found with
    | nil => cases h
    | cons q rest => exact (List.mem_filter.mp h).1
  obtain ⟨i, hi, heq⟩ := List.mem_filterMap.mp hfound
  split at heq
  · exact ⟨i, hi, Option.some.inj heq⟩
  · cases heq

/-- Whatever a state chooses to close is finished in it. -/
theorem reductions_subset (state : State) (t : Terminal) :
    (state.choose t).reductions ⊆ state.finishedBefore t := by
  rw [choose]
  generalize state.finishedBefore t = finished
  cases finished with
  | nil => exact List.Subset.refl _
  | cons p rest =>
      simp only
      split_ifs <;> first | exact List.Subset.refl _ | exact List.nil_subset _

theorem Known.choose (h : Known state) {p : Production}
    (hp : p ∈ (state.choose t).reductions) : p ∈ productions := by
  obtain ⟨i, hi, rfl⟩ := mem_of_finishedBefore (reductions_subset state t hp)
  exact h i hi

end State

/-! ### Stacks of derived trees -/

namespace Stack

variable {stack stack' : Stack} {p : Production} {token : Token} {tree : Tree}

/-- The states of a stack know the grammar and its trees derive from it. -/
structure Derived (stack : Stack) : Prop where
  known : ∀ frame ∈ stack, frame.state.Known
  trees : ∀ frame ∈ stack, frame.tree.Derived

theorem Derived.state (h : Derived stack) : (state stack).Known := by
  cases stack with
  | nil => exact State.known_initial
  | cons frame rest => exact h.known frame List.mem_cons_self

theorem Derived.push (h : Derived stack) (htree : tree.Derived) : Derived (push tree stack) :=
  ⟨List.forall_mem_cons.mpr ⟨h.state.goto _, h.known⟩, List.forall_mem_cons.mpr ⟨htree, h.trees⟩⟩

theorem Derived.drop (h : Derived stack) (k : Nat) : Derived (stack.drop k) :=
  ⟨fun frame hframe => h.known frame (List.mem_of_mem_drop hframe),
    fun frame hframe => h.trees frame (List.mem_of_mem_drop hframe)⟩

/-- The tokens of a stack, from its bottom on. -/
def leaves (stack : Stack) : List Token := (stack.map (·.tree)).reverse.flatMap Tree.leaves

theorem leaves_cons (frame : Frame) (stack : Stack) :
    leaves (frame :: stack) = leaves stack ++ frame.tree.leaves := by
  rw [leaves, List.map_cons, List.reverse_cons, List.flatMap_append, List.flatMap_singleton,
    ← leaves]

theorem leaves_push (tree : Tree) (stack : Stack) :
    leaves (push tree stack) = leaves stack ++ tree.leaves :=
  leaves_cons _ stack

/-- Closing a production of the grammar keeps the tokens. -/
theorem reduce?_derived (h : Derived stack) (hp : p ∈ productions)
    (hreduce : reduce? p stack = some stack') : Derived stack' ∧ leaves stack' = leaves stack := by
  rw [reduce?] at hreduce
  split at hreduce
  · rename_i hsymbols
    cases hreduce
    refine ⟨(h.drop _).push (.close hp hsymbols fun part hpart => ?_), ?_⟩
    · obtain ⟨frame, hframe, rfl⟩ := List.mem_map.mp hpart
      exact h.trees frame (List.mem_of_mem_take hframe)
    · rw [leaves_push, Tree.flatMap_close (Tree.leaves_node p.head) hsymbols, leaves, leaves,
        ← List.flatMap_append, ← List.reverse_append, ← List.map_append, List.take_append_drop]
  · cases hreduce

theorem chooseKind_kind (state : State) (kind : Terminal) :
    (chooseKind state kind).1 = kind ∨
      kind.isKeyword = true ∧ (chooseKind state kind).1 = .identifier := by
  rw [chooseKind]
  split
  · rename_i huseless
    rw [Bool.and_eq_true, Bool.and_eq_true] at huseless
    exact .inr ⟨huseless.1.1, rfl⟩
  · exact .inl rfl

theorem chooseKind_choice (state : State) (kind : Terminal) :
    (chooseKind state kind).2 = state.choose (chooseKind state kind).1 := by
  rw [chooseKind]
  split <;> rfl

theorem eq_or_mem_of_ite {α : Type} {shift : Bool} {a b : α} {rest : List α}
    (h : b ∈ if shift then a :: rest else rest) : b = a ∨ b ∈ rest := by
  split at h
  · exact List.mem_cons.mp h
  · exact .inr h

/-- Reading a token closes productions of the grammar and then adds the token, as what it was read as,
or a keyword as an identifier. -/
theorem read_derived {fuel : Nat} (h : Derived stack) (hmem : stack' ∈ read token fuel stack) :
    Derived stack' ∧
      ∃ kind, (kind = token.kind ∨ token.kind.isKeyword = true ∧ kind = .identifier) ∧
        leaves stack' = leaves stack ++ [{ token with kind }] := by
  induction fuel generalizing stack token with
  | zero => cases hmem
  | succ fuel ih =>
      rw [read] at hmem
      have hkind := chooseKind_kind (state stack) token.kind
      have hchoice := chooseKind_choice (state stack) token.kind
      generalize chooseKind (state stack) token.kind = chosen at hmem hkind hchoice
      obtain ⟨kind, choice⟩ := chosen
      simp only at hmem
      rcases eq_or_mem_of_ite hmem with rfl | hmem
      · exact ⟨h.push (.leaf _), kind, hkind, leaves_push _ _⟩
      · -- Behind a closed production the token is read again, as the kind it was taken for here.
        obtain ⟨p, hp, hmem⟩ := List.mem_flatMap.mp hmem
        split at hmem
        · cases hmem
        · rename_i reduced hreduce
          rw [show choice = _ from hchoice] at hp
          obtain ⟨hderived, hleaves⟩ := reduce?_derived h (h.state.choose hp) hreduce
          obtain ⟨hderived', kind', hkind', hleaves'⟩ := ih hderived hmem
          refine ⟨hderived', kind', ?_, hleaves' ▸ by rw [hleaves]⟩
          rcases hkind' with rfl | ⟨hkeyword, rfl⟩
          · exact hkind
          · rcases hkind with rfl | ⟨-, rfl⟩
            · exact .inr ⟨hkeyword, rfl⟩
            · cases hkeyword

end Stack

end ScriptPack.Python

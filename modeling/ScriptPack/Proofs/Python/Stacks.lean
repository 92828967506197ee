import Mathlib.Data.List.Induction
import ScriptPack.Proofs.Python.Positions
import ScriptPack.Python.ImportTree

/-!
Stacks of the recognizer, given by the trees on them: what a stack does with a token is what the
position leaves to do that the symbols of its trees lead to. Closing a production keeps the leaves of
the trees, and whatever else is gathered from the parts of a tree.
-/

namespace ScriptPack.Python

open Grammar Excerpt

/-! ### Trees -/

namespace Tree

variable {α : Type} {F : Tree → List α} {p : Production} {parts : List Tree}

@[simp]
theorem symbol_leaf (token : Token) : (leaf token).symbol = .terminal token.kind := rfl

theorem symbol_close (p : Production) (parts : List Tree) :
    (close p parts).symbol = .nonterminal p.head := by
  rw [close]
  split
  · split <;> rfl
  · rfl

/-- The production of a repetition whose first part is a node: that node is the repetition so far, and
the other parts are added to it. -/
theorem repetition_parts {head : Nonterminal} {front earlier : List Tree}
    (hrepeats : p.isRepetition = true)
    (hparts : (front ++ [node head earlier]).reverse.map (·.symbol) = p.steps.map (·.symbol)) :
    head = p.head ∧ ∃ step rest, p.steps = step :: rest ∧ step.symbol = .nonterminal p.head ∧
      front.reverse.map (·.symbol) = rest.map (·.symbol) := by
  rw [Production.isRepetition] at hrepeats
  cases hsteps : p.steps with
  | nil => rw [hsteps] at hrepeats; cases hrepeats
  | cons step rest =>
      rw [hsteps] at hrepeats hparts
      rw [List.reverse_append, List.reverse_singleton, List.singleton_append, List.map_cons,
        List.map_cons, List.cons.injEq] at hparts
      have hsymbol : step.symbol = .nonterminal p.head := by
        simpa using hrepeats
      exact ⟨Symbol.nonterminal.inj (hparts.1.trans hsymbol), step, rest, rfl, hsymbol, hparts.2⟩

/-- What is gathered from the parts of a tree, part by part, is gathered from those of a closed
production. -/
theorem flatMap_close (hF : ∀ parts, F (node p.head parts) = parts.reverse.flatMap F)
    (hparts : parts.reverse.map (·.symbol) = p.steps.map (·.symbol)) :
    F (close p parts) = parts.reverse.flatMap F := by
  rw [close]
  split
  · rename_i hrepeats
    split
    · rename_i head earlier hlast
      obtain ⟨front, rfl⟩ := List.getLast?_eq_some_iff.mp hlast
      obtain ⟨rfl, -⟩ := repetition_parts hrepeats hparts
      rw [hF]
      simp [hF]
    · exact hF parts
  · exact hF parts

mutual

theorem leavesBefore_eq (after : List Token) (tree : Tree) :
    leavesBefore after tree = leaves tree ++ after := by
  cases tree with
  | leaf token => rfl
  | node head parts =>
      rw [leaves, leavesBefore, leavesBefore, leavesOfReversed_eq after parts,
        leavesOfReversed_eq [] parts, List.append_nil]

theorem leavesOfReversed_eq (after : List Token) (parts : List Tree) :
    leavesOfReversed after parts = parts.reverse.flatMap leaves ++ after := by
  cases parts with
  | nil => rfl
  | cons tree parts =>
      rw [leavesOfReversed, leavesBefore_eq after tree, leavesOfReversed_eq _ parts,
        List.reverse_cons, List.flatMap_append, List.flatMap_singleton, List.append_assoc]

end

theorem leaves_node (head : Nonterminal) (parts : List Tree) :
    leaves (node head parts) = parts.reverse.flatMap leaves := by
  rw [leaves, leavesBefore, leavesOfReversed_eq, List.append_nil]

/-- The dotted names in a tree. -/
def names (tree : Tree) : List Tree := importedNames [] tree

theorem importedNames_node {head : Nonterminal} (h : head ≠ .dottedName) (after : List Tree)
    (parts : List Tree) :
    importedNames after (node head parts) = importedNamesOfReversed after parts := by
  rw [importedNames]
  exact h

mutual

theorem importedNames_eq (after : List Tree) (tree : Tree) :
    importedNames after tree = names tree ++ after := by
  match tree with
  | leaf token => rfl
  | node head parts =>
      by_cases h : head = .dottedName
      · subst h
        rfl
      · rw [names, importedNames_node h, importedNames_node h, importedNamesOfReversed_eq after,
          importedNamesOfReversed_eq [], List.append_nil]

theorem importedNamesOfReversed_eq (after : List Tree) (parts : List Tree) :
    importedNamesOfReversed after parts = parts.reverse.flatMap names ++ after := by
  match parts with
  | [] => rfl
  | tree :: parts =>
      rw [importedNamesOfReversed, importedNames_eq after tree, importedNamesOfReversed_eq _ parts,
        List.reverse_cons, List.flatMap_append, List.flatMap_singleton, List.append_assoc]

end

theorem names_node {head : Nonterminal} (h : head ≠ .dottedName) (parts : List Tree) :
    names (node head parts) = parts.reverse.flatMap names := by
  rw [names, importedNames_node h, importedNamesOfReversed_eq, List.append_nil]

/-- The imports of all statements in a tree. -/
def imports (tree : Tree) : List Import := importsBefore [] tree

mutual

theorem importsBefore_eq (after : List Import) (tree : Tree) :
    importsBefore after tree = imports tree ++ after := by
  match tree with
  | leaf token => rfl
  | node head parts =>
      rw [imports, importsBefore, importsBefore]
      split
      · rw [importsOfReversed_eq after, importsOfReversed_eq [], List.append_nil]
      · rw [List.append_nil]

theorem importsOfReversed_eq (after : List Import) (parts : List Tree) :
    importsOfReversed after parts = parts.reverse.flatMap imports ++ after := by
  match parts with
  | [] => rfl
  | tree :: parts =>
      rw [importsOfReversed, importsBefore_eq after tree, importsOfReversed_eq _ parts,
        List.reverse_cons, List.flatMap_append, List.flatMap_singleton, List.append_assoc]

end

theorem imports_node {head : Nonterminal} (h : holdsStatements head = true) (parts : List Tree) :
    imports (node head parts) = parts.reverse.flatMap imports := by
  rw [imports, importsBefore, if_pos h, importsOfReversed_eq, List.append_nil]

end Tree

/-! ### What there is to do behind some symbols -/

namespace Excerpt

variable {path : List Symbol} {t : Terminal}

/-- What there is to do with a terminal behind some symbols, if that is clear. -/
def action? (path : List Symbol) (t : Terminal) : Option Action :=
  (Position.walk .initial path).bind (·.action? t)

/-- Whether there is something to do with a terminal behind some symbols, if that is known. -/
def expects? (path : List Symbol) (t : Terminal) : Option Bool :=
  (Position.walk .initial path).bind (·.expects? t)

/-- What is done with a terminal behind some symbols, which is no place for the text of a format
string. -/
def Does (path : List Symbol) (t : Terminal) (action : Action) : Prop :=
  action? path t = some action ∧ expects? path .formatText = some false

instance (path : List Symbol) (t : Terminal) (action : Action) : Decidable (Does path t action) :=
  inferInstanceAs (Decidable (_ ∧ _))

theorem expects?_of_action? {action : Action} (h : action? path t = some action) :
    expects? path t = some true := by
  obtain ⟨position, hwalk, haction⟩ := Option.bind_eq_some_iff.mp h
  rw [expects?, hwalk, Option.bind_some, Position.expects?]
  rw [Position.action?] at haction
  split at haction
  · rename_i hgood
    rw [if_pos hgood, Option.some_inj]
    split at haction
    · rename_i _ hshifts
      obtain ⟨e, he, hnext⟩ := List.any_eq_true.mp hshifts
      refine List.any_eq_true.mpr ⟨e, he, ?_⟩
      cases hstep : e.steps[e.dot]? with
      | none => simp [hstep] at hnext
      | some step => simpa [hstep] using hnext
    · rename_i e hfinished _
      have he : e ∈ position.finished t := hfinished ▸ List.mem_singleton_self e
      obtain ⟨he, hends⟩ := List.mem_filter.mp he
      rw [Bool.and_eq_true, beq_iff_eq] at hends
      refine List.any_eq_true.mpr ⟨e, he, ?_⟩
      rw [List.getElem?_eq_none (Nat.le_of_eq hends.1.symm)]
      exact hends.2
    · cases haction
  · cases haction

end Excerpt

/-! ### Stacks -/

namespace Stack

/-- The symbols of some trees. -/
def symbols (trees : List Tree) : List Symbol := trees.map (·.symbol)

theorem symbols_append (trees trees' : List Tree) :
    symbols (trees ++ trees') = symbols trees ++ symbols trees' :=
  List.map_append

theorem symbols_singleton (tree : Tree) : symbols [tree] = [tree.symbol] := rfl

/-- The stack with some trees on it, the last one on top. -/
def ofTrees (trees : List Tree) : Stack := trees.foldl (fun stack tree => push tree stack) []


variable {trees trees' before parts : List Tree} {t : Terminal} {x : Nonterminal} {token : Token}
  {tree : Tree} {fuel k l : Nat}

theorem ofTrees_concat (trees : List Tree) (tree : Tree) :
    ofTrees (trees ++ [tree]) = push tree (ofTrees trees) :=
  List.foldl_append

theorem state_ofTrees (trees : List Tree) :
    state (ofTrees trees) = (symbols trees).foldl State.goto .initial := by
  induction trees using List.reverseRecOn with
  | nil => rfl
  | append_singleton trees tree ih =>
      rw [ofTrees_concat, symbols, List.map_append, List.foldl_append, ← symbols, ← ih]
      rfl

theorem map_tree_ofTrees (trees : List Tree) :
    (ofTrees trees).map (·.tree) = trees.reverse := by
  induction trees using List.reverseRecOn with
  | nil => rfl
  | append_singleton trees tree ih =>
      rw [ofTrees_concat, push, List.map_cons, ih, List.reverse_append]
      rfl

theorem drop_ofTrees (before parts : List Tree) :
    (ofTrees (before ++ parts)).drop parts.length = ofTrees before := by
  induction parts using List.reverseRecOn with
  | nil => rw [List.append_nil]; rfl
  | append_singleton parts tree ih =>
      rw [← List.append_assoc, ofTrees_concat, List.length_append, List.length_singleton]
      exact ih

theorem atPosition_ofTrees {position : Position}
    (h : Position.walk .initial (symbols trees) = some position) :
    AtPosition position (state (ofTrees trees)) := by
  rw [state_ofTrees]
  exact atPosition_initial.walk h

theorem contains_expected {b : Bool} (h : expects? (symbols trees) t = some b) :
    (state (ofTrees trees)).expected.contains t = b := by
  obtain ⟨position, hwalk, hexpects⟩ := Option.bind_eq_some_iff.mp h
  exact (atPosition_ofTrees hwalk).contains_expected hexpects

theorem chooseKind_of_choice {state : State} {choice : Choice} (h : state.choose t = choice)
    (hne : choice.shift = true ∨ choice.reductions ≠ []) : chooseKind state t = (t, choice) := by
  rw [chooseKind, h, if_neg]
  rcases hne with hne | hne
  · simp [hne]
  · simp [hne]

/-- A token that is read as it stands. -/
theorem read_shift (h : Does (symbols trees) token.kind .shift) :
    read token (fuel + 1) (ofTrees trees) = [ofTrees (trees ++ [.leaf token])] := by
  obtain ⟨position, hwalk, haction⟩ := Option.bind_eq_some_iff.mp h.1
  have hchoice := (atPosition_ofTrees hwalk).choose_shift haction
  rw [read, chooseKind_of_choice hchoice (.inl rfl), ofTrees_concat]
  rfl

/-- The terminals that a stack with some trees on it can do something with. -/
abbrev expected (trees : List Tree) : TokenSet := (state (ofTrees trees)).expected

/-- In front of a token of kind `t`, which is of use here, the trees of a stack are closed to others
in at most `k` rounds. -/
structure Closes (t : Terminal) (k : Nat) (trees trees' : List Tree) : Prop where
  expects : (expected trees).contains t = true
  formatText : (expected trees).contains .formatText = false
  read : ∃ n ≤ k, ∀ token, token.kind = t → ∀ fuel,
    read token (n + fuel) (ofTrees trees) = read token fuel (ofTrees trees')

theorem Closes.trans {trees'' : List Tree} (h : Closes t k trees trees')
    (h' : Closes t l trees' trees'') : Closes t (k + l) trees trees'' := by
  obtain ⟨n, hn, hread⟩ := h.read
  obtain ⟨m, hm, hread'⟩ := h'.read
  refine ⟨h.expects, h.formatText, n + m, Nat.add_le_add hn hm, fun token ht fuel => ?_⟩
  rw [Nat.add_assoc, hread token ht, hread' token ht]

theorem Closes.mono (h : Closes t k trees trees') (hkl : k ≤ l) : Closes t l trees trees' := by
  obtain ⟨n, hn, hread⟩ := h.read
  exact ⟨h.expects, h.formatText, n, Nat.le_trans hn hkl, hread⟩

theorem closes_refl {action : Action} (h : Does (symbols trees) t action) :
    Closes t 0 trees trees :=
  ⟨contains_expected (expects?_of_action? h.1), contains_expected h.2, 0, Nat.le_refl 0,
    fun token _ fuel => by rw [Nat.zero_add]⟩

/-- A tree that closes a production of some parts. -/
def IsClosing (x : Nonterminal) (parts : List Tree) (tree : Tree) : Prop :=
  ∃ steps, steps.map (·.symbol) = symbols parts ∧
    tree = Tree.close (production x steps) parts.reverse

/-- A production that is closed in front of a token. -/
theorem closes_reduce (h : Does (symbols before ++ symbols parts) t (.reduce x (symbols parts))) :
    ∃ tree, IsClosing x parts tree ∧ Closes t 1 (before ++ parts) (before ++ [tree]) := by
  rw [← symbols_append] at h
  obtain ⟨position, hwalk, haction⟩ := Option.bind_eq_some_iff.mp h.1
  obtain ⟨steps, hsteps, hchoice⟩ := (atPosition_ofTrees hwalk).choose_reduce haction
  refine ⟨_, ⟨steps, hsteps, rfl⟩, contains_expected (expects?_of_action? h.1),
    contains_expected h.2, 1, Nat.le_refl 1, fun token ht fuel => ?_⟩
  have hlength : (production x steps).steps.length = parts.length := by
    rw [show (production x steps).steps = steps from rfl, ← List.length_map (·.symbol), hsteps,
      symbols, List.length_map]
  have hparts : ((ofTrees (before ++ parts)).take parts.length).map (·.tree) = parts.reverse := by
    rw [List.map_take, map_tree_ofTrees, List.reverse_append, ← List.length_reverse,
      List.take_left]
  have hreduce : reduce? (production x steps) (ofTrees (before ++ parts)) =
      some (ofTrees (before ++ [Tree.close (production x steps) parts.reverse])) := by
    have hsymbols : parts.reverse.reverse.map (·.symbol) =
        (production x steps).steps.map (·.symbol) := by
      rw [List.reverse_reverse]
      exact hsteps.symm
    simp only [reduce?, hlength, hparts, if_pos hsymbols, drop_ofTrees, ofTrees_concat]
  rw [Nat.add_comm, Stack.read, ht, chooseKind_of_choice hchoice (.inr (List.cons_ne_nil _ _))]
  simp only [List.flatMap_singleton, hreduce, Bool.false_eq_true, if_false]
  rw [← ht]

/-- As `closes_reduce`, for the last of some trees. -/
theorem closes_behind {front : List Tree}
    (h : Does (symbols before ++ (symbols front ++ symbols parts)) t (.reduce x (symbols parts))) :
    ∃ tree, IsClosing x parts tree ∧
      Closes t 1 (before ++ (front ++ parts)) (before ++ (front ++ [tree])) := by
  rw [← List.append_assoc, ← symbols_append] at h
  simpa only [List.append_assoc] using closes_reduce h

namespace IsClosing

variable (h : IsClosing x parts tree)

include h

theorem symbol : tree.symbol = .nonterminal x := by
  obtain ⟨steps, -, rfl⟩ := h
  exact Tree.symbol_close _ _

/-- What is gathered part by part is gathered from the closed tree. -/
theorem gather {α : Type} {F : Tree → List α}
    (hF : ∀ parts, F (.node x parts) = parts.reverse.flatMap F) : F tree = parts.flatMap F := by
  obtain ⟨steps, hsteps, rfl⟩ := h
  have hgather := @Tree.flatMap_close _ _ (production x steps) parts.reverse hF
    (by rw [List.reverse_reverse]; exact hsteps.symm)
  rwa [List.reverse_reverse] at hgather

theorem leaves : tree.leaves = parts.flatMap Tree.leaves := h.gather (Tree.leaves_node x)

theorem names (hx : x ≠ .dottedName) : tree.names = parts.flatMap Tree.names :=
  h.gather (Tree.names_node hx)

theorem imports (hx : Tree.holdsStatements x = true) :
    tree.imports = parts.flatMap Tree.imports :=
  h.gather (Tree.imports_node hx)

/-- A production that does not begin with its own head is closed to a node of its parts. -/
theorem eq_node {part : Tree} {others : List Tree} (hparts : parts = part :: others)
    (hpart : part.symbol ≠ .nonterminal x) : tree = .node x parts.reverse := by
  obtain ⟨steps, hsteps, rfl⟩ := h
  have hrepeats : (production x steps).isRepetition = false := by
    rw [Production.isRepetition, ← List.head?_map, show (production x steps).steps = steps from rfl,
      hsteps, hparts]
    simpa [symbols, production] using hpart
  rw [Tree.close, hrepeats]
  rfl

end IsClosing

end Stack

end ScriptPack.Python

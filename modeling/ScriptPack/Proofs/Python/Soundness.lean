import ScriptPack.Proofs.Python.Derivations
import ScriptPack.Proofs.Python.Spelling

/-!
What the trees of a source text say about it. Their tokens, one after the other with what was skipped
between them, spell the text from its beginning on; each token stands in the row that it gives, a
keyword has its text, and the trees derive from the grammar (`parse?_sound`).
-/

namespace ScriptPack.Python

open Reader (lineEnds)

/-- The text of some tokens, with what was skipped in front of each. -/
def spelled (tokens : List Token) : List Char := tokens.flatMap fun token => token.gap ++ token.text

/-- Tokens as they stand behind a text: each gives the row in which it begins, and keywords have
their text. -/
def Placed (front : List Char) : List Token → Prop
  | [] => True
  | token :: rest =>
    token.row = lineEnds (front ++ token.gap) ∧ Spelled token.kind token.text ∧
      Placed (front ++ (token.gap ++ token.text)) rest

section Placed

variable {front : List Char} {tokens : List Token} {token : Token}

theorem spelled_cons (token : Token) (tokens : List Token) :
    spelled (token :: tokens) = token.gap ++ token.text ++ spelled tokens :=
  List.flatMap_cons

theorem spelled_append (tokens tokens' : List Token) :
    spelled (tokens ++ tokens') = spelled tokens ++ spelled tokens' :=
  List.flatMap_append

theorem lineEnds_append (text text' : List Char) :
    lineEnds (text ++ text') = lineEnds text + lineEnds text' :=
  List.count_append

theorem placed_append {tokens' : List Token} : Placed front (tokens ++ tokens') ↔
    Placed front tokens ∧ Placed (front ++ spelled tokens) tokens' := by
  induction tokens generalizing front with
  | nil => simp [Placed, spelled]
  | cons token tokens ih => simp [Placed, ih, spelled_cons, and_assoc]

/-- A token stands in the text where it says. -/
theorem Placed.at (h : Placed front tokens) (hmem : token ∈ tokens) :
    Spelled token.kind token.text ∧ ∃ before after,
      front ++ spelled tokens = before ++ (token.text ++ after) ∧ token.row = lineEnds before := by
  obtain ⟨earlier, later, rfl⟩ := List.append_of_mem hmem
  obtain ⟨-, hrow, hspelled, -⟩ := placed_append.mp h
  refine ⟨hspelled, front ++ spelled earlier ++ token.gap, spelled later, ?_, hrow⟩
  rw [spelled_append, spelled_cons]
  simp only [List.append_assoc]

theorem Placed.le_row (h : Placed front tokens) (hmem : token ∈ tokens) :
    lineEnds front ≤ token.row := by
  obtain ⟨earlier, later, rfl⟩ := List.append_of_mem hmem
  obtain ⟨-, hrow, -⟩ := placed_append.mp h
  rw [hrow, lineEnds_append, lineEnds_append]
  omega

/-- Tokens come row after row. -/
theorem Placed.pairwise (h : Placed front tokens) : tokens.Pairwise (·.row ≤ ·.row) := by
  induction tokens generalizing front with
  | nil => exact .nil
  | cons token tokens ih =>
      obtain ⟨hrow, -, hrest⟩ := h
      -- all later tokens stand behind this one's text
      refine .cons (fun later hlater => ?_) (ih hrest)
      have hle := hrest.le_row hlater
      rw [lineEnds_append, lineEnds_append] at hle
      rw [hrow, lineEnds_append]
      omega

end Placed

namespace Reader

variable {source : List Char} {r q : Reader}

/-- A reading of the source text: what has been read of it is on the stack. -/
structure Follows (source : List Char) (r : Reader) : Prop where
  derived : Stack.Derived r.stack
  placed : Placed [] (Stack.leaves r.stack)
  row : r.row = lineEnds (spelled (Stack.leaves r.stack))
  covers : source = spelled (Stack.leaves r.stack) ++ r.rest

theorem follows_initial (source : List Char) : Follows source (.initial source) :=
  ⟨⟨nofun, nofun⟩, trivial, rfl, rfl⟩

/-- One more token is taken from the text ahead. -/
theorem Follows.advance (h : Follows source r) (hq : q ∈ r.advance) : Follows source q := by
  rw [Reader.advance] at hq
  split at hq
  · cases hq
  · rename_i found hfound
    obtain ⟨stack, hstack, rfl⟩ := List.mem_map.mp hq
    obtain ⟨hderived, kind, hkind, hleaves⟩ := Stack.read_derived h.derived hstack
    -- taken for an identifier, a token is no keyword any more
    have hspelled : Spelled kind ((r.rest.drop found.gap).take found.length) := by
      rcases hkind with rfl | ⟨-, rfl⟩
      · exact Lexer.read?_spelled hfound
      · exact .of_other rfl _
    refine ⟨hderived, ?_, ?_, ?_⟩
    · simp only [hleaves, placed_append, Placed]
      refine ⟨h.placed, ?_, hspelled, trivial⟩
      rw [List.nil_append, lineEnds_append, h.row]
    · simp only [hleaves, spelled_append, spelled_cons, lineEnds_append, h.row]
      simp [spelled, lineEnds, Nat.add_assoc]
    · simp only [hleaves, spelled_append, spelled_cons]
      simp only [List.append_assoc, spelled, List.flatMap_nil, List.nil_append,
        List.take_append_drop]
      exact h.covers

theorem mem_of_mem_distinct {readers : List Reader} (h : r ∈ distinct readers) : r ∈ readers := by
  induction readers with
  | nil => exact h
  | cons q readers ih =>
      rcases List.mem_cons.mp h with rfl | h
      · exact List.mem_cons_self
      · exact List.mem_cons_of_mem _ (ih (List.mem_filter.mp h).1)

/-- What holds of all readings at the beginning and is kept by each token holds of the reading that
comes to the end. -/
theorem run_induction {P : Reader → Prop} (hstep : ∀ r q, P r → q ∈ r.advance → P q) {fuel : Nat}
    {readers : List Reader} {trees : List Tree} (hstart : ∀ r ∈ readers, P r)
    (hrun : run fuel readers = some trees) : ∃ r, P r ∧ r.finished? = some trees := by
  induction fuel generalizing readers with
  | zero => cases hrun
  | succ fuel ih =>
      have hnext : ∀ q ∈ distinct (readers.flatMap advance), P q := fun q hq => by
        obtain ⟨r, hr, hadvance⟩ := List.mem_flatMap.mp (mem_of_mem_distinct hq)
        exact hstep r q (hstart r hr) hadvance
      rw [run] at hrun
      generalize distinct (readers.flatMap advance) = next at hnext hrun
      split at hrun
      · cases hrun
      · split at hrun
        · rename_i found hfound
          obtain ⟨r, hr, hends⟩ := List.exists_of_findSome?_eq_some hfound
          exact ⟨r, hnext r hr, hends.trans hrun⟩
        · exact ih hnext hrun

/-- The trees of a reading that is at its end: all on the stack but the end of the text. -/
theorem of_finished? {trees : List Tree} (h : r.finished? = some trees) :
    (∃ ending, Stack.leaves r.stack = trees.flatMap Tree.leaves ++ [ending]) ∧
      ∀ tree ∈ trees, ∃ frame ∈ r.stack, frame.tree = tree := by
  rw [finished?] at h
  split at h
  · rename_i state gap text row earlier hstack
    cases h
    rw [hstack]
    refine ⟨⟨⟨.endOfText, gap, text, row⟩, ?_⟩, fun tree htree => ?_⟩
    · rw [List.map_reverse]
      exact Stack.leaves_cons _ _
    · obtain ⟨frame, hframe, rfl⟩ := List.mem_map.mp htree
      exact ⟨frame, List.mem_cons_of_mem _ (List.mem_reverse.mp hframe), rfl⟩
  · cases h

end Reader

/-- What the trees of a text say about it. -/
structure Parsed (source : List Char) (trees : List Tree) : Prop where
  derived : ∀ tree ∈ trees, tree.Derived
  placed : Placed [] (trees.flatMap Tree.leaves)
  covers : spelled (trees.flatMap Tree.leaves) <+: source

/-- The trees of a text are trees of the grammar whose tokens spell the text. -/
theorem parse?_sound {source : List Char} {trees : List Tree} (h : parse? source = some trees) :
    Parsed source trees := by
  obtain ⟨r, hr, hends⟩ := Reader.run_induction (P := Reader.Follows source)
    (fun _ _ hr => hr.advance)
    (fun r hr => List.mem_singleton.mp hr ▸ Reader.follows_initial source) h
  obtain ⟨⟨ending, hleaves⟩, htrees⟩ := Reader.of_finished? hends
  have hplaced := hr.placed
  have hcovers := hr.covers
  rw [hleaves] at hplaced hcovers
  rw [spelled_append, List.append_assoc] at hcovers
  refine ⟨fun tree htree => ?_, (placed_append.mp hplaced).1, _, hcovers.symm⟩
  obtain ⟨frame, hframe, rfl⟩ := htrees tree htree
  exact hr.derived.trees frame hframe

end ScriptPack.Python

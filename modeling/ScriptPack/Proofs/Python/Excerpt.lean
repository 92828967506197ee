import ScriptPack.Proofs.Python.Corners

/-!
An excerpt from the tables of the automaton: what import statements need of them. It says of some
nonterminals with which of the terminals that matter here they begin, and what stands at their front;
that this is right is checked against the grammar.
-/

namespace ScriptPack.Python

namespace Excerpt

open Grammar Automaton

/-- The terminals that matter where imports are read. -/
def noted : List Terminal :=
  [.kwAs, .kwExcept, .kwFrom, .kwFuture, .kwImport, .comma, .dot, .identifier, .newline, .indent,
    .dedent, .formatText, .endOfText]

/-! ### First terminals -/

/-- The nonterminals that go on in front of others where imports are read. -/
def known : List Nonterminal :=
  [.statements, .statement, .moreSimpleStatements, .dots, .relativeImport, .importList, .moreImports,
    .aliasedImport, .wildcard, .dottedName, .moreNameParts]

/-- Whether a phrase can begin with one of the terminals that matter. -/
def mayBegin (x : Nonterminal) : Terminal → Bool
  | .comma => (rule x).any (beginsWith (.terminal .comma))
  | .dot => [.dots, .relativeImport, .moreNameParts].contains x
  | .kwImport =>
    [.document, .statements, .statement, .simpleStatements, .importStatement, .block].contains x
  | .kwFrom =>
    [.document, .statements, .statement, .simpleStatements, .futureImport, .importFrom,
      .block].contains x
  | .identifier =>
    !([.moreSimpleStatements, .dots, .relativeImport, .moreImports, .wildcard,
      .moreNameParts].contains x)
  | .kwExcept => [.exceptClauses, .exceptClause].contains x
  | .newline | .indent => x == .matchBlock
  | .dedent => x == .block
  | .formatText => x == .formatParts
  | .endOfText => x == .document
  | _ => false

/-- A chain of nonterminals, each at the front of the one before it, and a terminal in front. -/
def isChain (t : Terminal) : List Nonterminal → Bool
  | [] => false
  | [x] => (rule x).any (beginsWith (.terminal t))
  | x :: y :: rest => (rule x).any (beginsWith (.nonterminal y)) && isChain t (y :: rest)

/-- Chains by which the known nonterminals begin with the terminals that matter. -/
def chains : List (Terminal × List Nonterminal) :=
  [(.kwImport, [.statements, .statement, .simpleStatements, .importStatement]),
    (.kwFrom, [.statements, .statement, .simpleStatements, .importFrom]),
    (.identifier, [.statements, .statement, .simpleStatements, .expressionStatement, .expression,
      .primary]),
    (.identifier, [.importList, .dottedName]), (.identifier, [.aliasedImport, .dottedName]),
    (.dot, [.relativeImport, .dots]), (.dot, [.moreNameParts]), (.comma, [.moreImports])]

variable {x y : Nonterminal} {s : Symbol} {t : Terminal} {path : List Nonterminal}

theorem opens_of_any (h : (rule x).any (beginsWith s) = true) : Opens x s := by
  obtain ⟨steps, hsteps, hbegins⟩ := List.any_eq_true.mp h
  cases steps with
  | nil => cases hbegins
  | cons step rest => exact ⟨step, rest, hsteps, by simpa [beginsWith] using hbegins⟩

theorem begins_of_isChain (h : isChain t (x :: path)) : Begins (path.length + 1) x t := by
  induction path generalizing x with
  | nil => exact .terminal 0 (opens_of_any h)
  | cons y rest ih =>
      rw [isChain, Bool.and_eq_true] at h
      exact .nonterminal (opens_of_any h.1) (ih h.2)

/-- No alternative makes its nonterminal begin with something else. -/
def keepsBeginnings (x : Nonterminal) (steps : List Step) : Bool :=
  match steps with
  | [] => true
  | s :: _ =>
    match s.symbol with
    | .terminal t => !noted.contains t || mayBegin x t
    | .nonterminal y => noted.all fun t => !mayBegin y t || mayBegin x t

theorem keepsBeginnings_all :
    ∀ x ∈ Nonterminal.all, (rule x).all (keepsBeginnings x) = true := by
  decide +kernel

theorem chains_all : ∀ x ∈ known, ∀ t ∈ noted, mayBegin x t = true →
    ∃ c ∈ chains, c.1 = t ∧ ∃ path ∈ c.2.tails, path.head? = some x ∧
      path.length ≤ Nonterminal.count ∧ isChain t path = true := by
  decide +kernel

/-- The terminals that matter are known for the first symbols that are. -/
theorem starts_noted (hx : x ∈ known) (ht : t ∈ noted) :
    (starts (.nonterminal x)).contains t = mayBegin x t := by
  rw [Bool.eq_iff_iff]
  constructor
  · refine fun h => starts_within (B := fun x t => t ∈ noted → mayBegin x t) ?_ ?_ h ht
    · rintro x t ⟨step, rest, hmem, hs⟩ ht
      have hall := List.all_eq_true.mp (keepsBeginnings_all x x.mem_all) _ hmem
      rw [keepsBeginnings, hs] at hall
      simpa [ht] using hall
    · rintro x y t ⟨step, rest, hmem, hs⟩ hy ht
      have hall := List.all_eq_true.mp (keepsBeginnings_all x x.mem_all) _ hmem
      rw [keepsBeginnings, hs] at hall
      have := List.all_eq_true.mp hall t ht
      simpa [hy ht] using this
  · intro h
    obtain ⟨c, -, -, path, -, hhead, hlength, hchain⟩ := chains_all x hx t ht h
    obtain ⟨rest, rfl⟩ := List.head?_eq_some_iff.mp hhead
    exact starts_of_begins (begins_of_isChain hchain) hlength

/-- Two sets with the same of the terminals that matter. -/
def Agree (a b : TokenSet) : Prop := ∀ t ∈ noted, a.contains t = b.contains t

def setOf (all : List Terminal) : TokenSet := all.foldr (fun t set => .singleton t ∪ set) ∅

theorem contains_setOf (all : List Terminal) (t : Terminal) : (setOf all).contains t = all.contains t := by
  induction all with
  | nil => exact TokenSet.contains_empty t
  | cons u rest ih =>
      rw [setOf, List.foldr_cons, ← setOf, TokenSet.contains_union, ih, List.contains_cons,
        TokenSet.contains_singleton]
      congr 1
      exact Bool.beq_comm

/-- The terminals that matter at the front of a symbol. -/
def first : Symbol → TokenSet
  | .terminal t => .singleton t
  | .nonterminal x => setOf (noted.filter (mayBegin x))

/-- Whether the excerpt says with what a symbol begins. -/
def knows : Symbol → Bool
  | .terminal _ => true
  | .nonterminal x => known.contains x

theorem agree_first (h : knows s = true) : Agree (first s) (starts s) := by
  intro t ht
  cases s with
  | terminal u => rfl
  | nonterminal x =>
      rw [starts_noted (List.contains_iff_mem.mp h) ht, first, contains_setOf, Bool.eq_iff_iff,
        List.contains_iff_mem, List.mem_filter]
      exact and_iff_right ht

/-! ### Corners -/

/-- What comes behind a phrase in front of the remaining steps of a production. -/
def follows : List Step → Lookahead
  | [] => ⟨∅, true⟩
  | s :: _ => ⟨first s.symbol, false⟩

def knowsFirst : List Step → Bool
  | [] => true
  | s :: _ => knows s.symbol

/-- What can follow phrases in different places, as far as it matters. -/
def nothing : Lookahead := ⟨∅, true⟩

def lineEnd : Lookahead := ⟨.singleton .newline, false⟩

def statementStart : Lookahead := ⟨setOf [.kwFrom, .kwImport, .identifier], true⟩

/-- The phrases at the front of others, in the order of all nonterminals. -/
def corners : Nonterminal → List (Nonterminal × Lookahead)
  | .statements =>
    [(.statements, statementStart), (.statement, statementStart),
      (.simpleStatements, statementStart), (.importStatement, lineEnd), (.futureImport, lineEnd),
      (.importFrom, lineEnd)]
  | .statement =>
    [(.statement, nothing), (.simpleStatements, nothing), (.importStatement, lineEnd),
      (.futureImport, lineEnd), (.importFrom, lineEnd)]
  | .moreSimpleStatements => [(.moreSimpleStatements, nothing)]
  | .relativeImport => [(.dots, ⟨setOf [.dot, .identifier], true⟩), (.relativeImport, nothing)]
  | .importList =>
    [(.importList, nothing), (.aliasedImport, ⟨.singleton .comma, true⟩),
      (.dottedName, ⟨setOf [.kwAs, .comma], true⟩)]
  | .moreImports => [(.moreImports, ⟨.singleton .comma, true⟩)]
  | .aliasedImport => [(.aliasedImport, nothing), (.dottedName, ⟨.singleton .kwAs, false⟩)]
  | .wildcard => [(.wildcard, nothing)]
  | .dottedName => [(.dottedName, nothing)]
  | .moreNameParts => [(.moreNameParts, ⟨.singleton .dot, true⟩)]
  | _ => []

/-- Phrases of which the excerpt says nothing, though they may stand at the front. -/
def isFree (x y : Nonterminal) : Bool :=
  [.statements, .statement].contains x &&
    !([.document, .statements, .statement, .simpleStatements, .importStatement, .futureImport,
      .importFrom, .block].contains y)

/-- One round of the chains of edges to phrases of which the excerpt says something. -/
def edgesFrom (x : Nonterminal) (c : Nonterminal × Lookahead) : List (Nonterminal × Lookahead) :=
  (rule c.1).filterMap fun
    | ⟨.nonterminal y, _, _⟩ :: rest =>
      if isFree x y || !knowsFirst rest then none else some (y, (follows rest).inside c.2)
    | _ => none

def chainsFrom (x : Nonterminal) : Nat → List (Nonterminal × Lookahead)
  | 0 => [(x, nothing)]
  | k + 1 => (chainsFrom x k ++ (chainsFrom x k).flatMap (edgesFrom x)).eraseDups

/-- No more of what matters behind a phrase than behind another one. -/
def isWithin (a b : Lookahead) : Bool :=
  noted.all (fun t => !a.fixed.contains t || b.fixed.contains t) && (!a.inherits || b.inherits)

/-- Behind an alternative of a phrase there is no more than the excerpt says. -/
def keepsCorners (x y : Nonterminal) (steps : List Step) : Bool :=
  match steps with
  | ⟨.nonterminal z, _, _⟩ :: rest =>
    isFree x z || (!isFree x y && match (corners x).lookup y with
      | none => true
      | some b => knowsFirst rest &&
        match (corners x).lookup z with
        | none => false
        | some c => isWithin ((follows rest).inside b) c)
  | _ => true

/-- The nonterminals whose corners are in the excerpt. -/
def cornered : List Nonterminal :=
  [.statements, .statement, .moreSimpleStatements, .relativeImport, .importList, .moreImports,
    .aliasedImport, .wildcard, .dottedName, .moreNameParts]

theorem keepsCorners_all : ∀ x ∈ cornered, ∀ y ∈ Nonterminal.all,
    (isFree x y || ((corners x).lookup y).isSome) = true →
    (rule y).all (keepsCorners x y) = true := by
  decide +kernel

/-- Everything that the excerpt says of a corner comes by some chain. -/
def isReached (x : Nonterminal) (c : Nonterminal × Lookahead) : Bool :=
  let found := (chainsFrom x 3).filter (·.1 == c.1)
  !found.isEmpty && (!c.2.inherits || found.any (·.2.inherits)) &&
    noted.all fun t => !c.2.fixed.contains t || found.any (·.2.fixed.contains t)

theorem isReached_all : ∀ x ∈ cornered, (corners x).all (isReached x) = true := by
  decide +kernel

/-- Two descriptions of what may follow that say the same of what matters. -/
structure Like (a b : Lookahead) : Prop where
  fixed : Agree a.fixed b.fixed
  inherits : a.inherits = b.inherits

variable {a b c d : Lookahead} {k : Nat}

theorem Like.inside (h : Like a b) (h' : Like c d) : Like (a.inside c) (b.inside d) := by
  refine ⟨fun t ht => ?_, ?_⟩
  · rw [Lookahead.inside, Lookahead.inside, Lookahead.contains_resolve, Lookahead.contains_resolve,
      h.fixed t ht, h'.fixed t ht, h.inherits]
  · rw [Lookahead.inside, Lookahead.inside, h.inherits, h'.inherits]

theorem like_follows {rest : List Step} (h : knowsFirst rest = true) :
    Like (follows rest) (behind rest) := by
  cases rest with
  | nil => exact ⟨fun _ _ => rfl, rfl⟩
  | cons s _ => exact ⟨agree_first h, rfl⟩

theorem chain_of_chainsFrom (h : (y, a) ∈ chainsFrom x k) : ∃ b, Chain x k y b ∧ Like a b := by
  induction k generalizing y a with
  | zero =>
      cases List.mem_singleton.mp h
      exact ⟨_, .start 0, fun _ _ => rfl, rfl⟩
  | succ k ih =>
      rw [chainsFrom, List.mem_eraseDups, List.mem_append] at h
      rcases h with h | h
      · obtain ⟨b, hb, hlike⟩ := ih h
        exact ⟨b, hb.mono (Nat.le_succ k), hlike⟩
      · obtain ⟨⟨z, c⟩, hz, hedge⟩ := List.mem_flatMap.mp h
        obtain ⟨d, hd, hlike⟩ := ih hz
        obtain ⟨steps, hsteps, hedge⟩ := List.mem_filterMap.mp hedge
        split at hedge
        · rename_i y' level side rest
          split at hedge
          · cases hedge
          · rename_i hgood
            cases hedge
            rw [Bool.not_eq_true, Bool.or_eq_false_iff, Bool.not_eq_false'] at hgood
            have he : Edge.mk z y (behind rest) ∈ edges := mem_edges.mpr ⟨_, _, hsteps, rfl, rfl⟩
            exact ⟨_, .step he hd, (like_follows hgood.2).inside hlike⟩
        · cases hedge

theorem isWithin_iff : isWithin a b = true ↔
    (∀ t ∈ noted, a.fixed.contains t → b.fixed.contains t) ∧ (a.inherits → b.inherits) := by
  rw [isWithin, Bool.and_eq_true, List.all_eq_true]
  refine and_congr (forall₂_congr fun t _ => ?_) ?_
  · cases a.fixed.contains t <;> simp
  · cases a.inherits <;> simp

theorem keepsCorners_of_mem (hx : x ∈ cornered) {steps : List Step} (hsteps : steps ∈ rule y)
    (hy : (isFree x y || ((corners x).lookup y).isSome) = true) : keepsCorners x y steps = true :=
  List.all_eq_true.mp (keepsCorners_all x hx y y.mem_all hy) _ hsteps

/-- The table of corners has no more in it than the excerpt says. -/
theorem corner_of_excerpt (hx : x ∈ cornered) (h : corner x y = some a) :
    isFree x y = true ∨ ∃ b, (corners x).lookup y = some b ∧ isWithin a b = true := by
  refine corner_within (P := fun y a =>
    isFree x y = true ∨ ∃ b, (corners x).lookup y = some b ∧ isWithin a b = true) ?_ ?_ ?_ h
  · have hstart : ∀ x ∈ cornered, isFree x x = true ∨
        ((corners x).lookup x).any (isWithin ⟨∅, true⟩) = true := by
      decide +kernel
    refine (hstart x hx).imp_right fun h => ?_
    cases hl : (corners x).lookup x with
    | none => rw [hl] at h; cases h
    | some b => exact ⟨b, rfl, by rwa [hl] at h⟩
  · rintro y a b (hfree | ⟨c, hc, ha⟩) hb
    · exact .inl hfree
    · rcases hb with hfree | ⟨d, hd, hb⟩
      · exact .inl hfree
      · cases hc.symm.trans hd
        refine .inr ⟨c, hc, isWithin_iff.mpr ⟨fun t ht hcontains => ?_, fun hi => ?_⟩⟩
        · rw [Lookahead.join, TokenSet.contains_union, Bool.or_eq_true] at hcontains
          exact hcontains.elim ((isWithin_iff.mp ha).1 t ht) ((isWithin_iff.mp hb).1 t ht)
        · rw [Lookahead.join, Bool.or_eq_true] at hi
          exact hi.elim (isWithin_iff.mp ha).2 (isWithin_iff.mp hb).2
  · intro e he a ha
    obtain ⟨⟨symbol, level, side⟩, rest, hsteps, rfl, hafter⟩ := mem_edges.mp he
    rw [hafter]
    rcases ha with hfree | ⟨b, hb, ha⟩
    · have hkeeps := keepsCorners_of_mem hx hsteps (by rw [hfree, Bool.true_or])
      rw [keepsCorners, hfree, Bool.not_true, Bool.false_and, Bool.or_false] at hkeeps
      exact .inl hkeeps
    · have hkeeps := keepsCorners_of_mem hx hsteps (by rw [hb]; exact Bool.or_true _)
      rw [keepsCorners, hb, Bool.or_eq_true] at hkeeps
      refine hkeeps.imp_right fun hkeeps => ?_
      simp only [Bool.and_eq_true] at hkeeps
      obtain ⟨-, hknows, hkeeps⟩ := hkeeps
      split at hkeeps
      · cases hkeeps
      · rename_i c hc
        refine ⟨c, hc, isWithin_iff.mpr ⟨fun t ht hcontains => ?_, fun hi => ?_⟩⟩
        · refine (isWithin_iff.mp hkeeps).1 t ht ?_
          rw [Lookahead.inside, Lookahead.contains_resolve, Bool.or_eq_true, Bool.and_eq_true]
            at hcontains ⊢
          rw [(like_follows hknows).fixed t ht, (like_follows hknows).inherits]
          exact hcontains.imp_right fun h => ⟨h.1, (isWithin_iff.mp ha).1 t ht h.2⟩
        · refine (isWithin_iff.mp hkeeps).2 ?_
          rw [Lookahead.inside, Bool.and_eq_true] at hi ⊢
          rw [(like_follows hknows).inherits]
          exact ⟨hi.1, (isWithin_iff.mp ha).2 hi.2⟩

theorem corner_eq_none (hx : x ∈ cornered) (hfree : isFree x y = false)
    (h : (corners x).lookup y = none) : corner x y = none := by
  cases hc : corner x y with
  | none => rfl
  | some a =>
      rcases corner_of_excerpt hx hc with hfree' | ⟨b, hb, -⟩
      · exact absurd (hfree.symm.trans hfree') Bool.false_ne_true
      · cases h.symm.trans hb

theorem isReached_iff : isReached x (y, b) = true ↔
    (∃ a, (y, a) ∈ chainsFrom x 3) ∧ (b.inherits → ∃ a, (y, a) ∈ chainsFrom x 3 ∧ a.inherits) ∧
      ∀ t ∈ noted, b.fixed.contains t → ∃ a, (y, a) ∈ chainsFrom x 3 ∧ a.fixed.contains t := by
  have hfound (p : Lookahead → Bool) : (chainsFrom x 3 |>.filter (·.1 == y)).any (fun c => p c.2) ↔
      ∃ a, (y, a) ∈ chainsFrom x 3 ∧ p a := by
    simp
  have hsome : (chainsFrom x 3 |>.filter (·.1 == y)).isEmpty = false ↔
      ∃ a, (y, a) ∈ chainsFrom x 3 := by
    simp
  rw [isReached]
  simp only [Bool.and_eq_true, Bool.not_eq_true', hsome, List.all_eq_true, and_assoc]
  refine and_congr_right fun _ => and_congr ?_ (forall₂_congr fun t _ => ?_)
  · rw [Bool.or_eq_true, hfound (·.inherits)]
    cases b.inherits <;> simp
  · rw [Bool.or_eq_true, hfound (·.fixed.contains t)]
    cases b.fixed.contains t <;> simp

/-- What the excerpt says of a corner is what matters of it in the table. -/
theorem corner_like (hx : x ∈ cornered) (hfree : isFree x y = false)
    (h : (corners x).lookup y = some b) : ∃ a, corner x y = some a ∧ Like b a := by
  have hmem : (y, b) ∈ corners x := by
    obtain ⟨before, after, heq, -⟩ := List.lookup_eq_some_iff.mp h
    rw [heq]
    exact List.mem_append_right _ List.mem_cons_self
  obtain ⟨⟨a, ha⟩, hinherits, hfixed⟩ :=
    isReached_iff.mp (List.all_eq_true.mp (isReached_all x hx) _ hmem)
  have hreach {a : Lookahead} (ha : (y, a) ∈ chainsFrom x 3) :
      ∃ d, corner x y = some d ∧ (∀ t ∈ noted, a.fixed.contains t → d.fixed.contains t) ∧
        (a.inherits → d.inherits) := by
    obtain ⟨c, hc, hlike⟩ := chain_of_chainsFrom ha
    obtain ⟨d, hd, hfix, hinh⟩ := corner_of_chain hc (by decide)
    exact ⟨d, hd, fun t ht h => hfix t (hlike.fixed t ht ▸ h), fun h => hinh (hlike.inherits ▸ h)⟩
  obtain ⟨d, hd, -⟩ := hreach ha
  have hwithin : isWithin d b = true := by
    rcases corner_of_excerpt hx hd with hfree' | ⟨b', hb', hwithin⟩
    · exact absurd (hfree.symm.trans hfree') Bool.false_ne_true
    · cases h.symm.trans hb'
      exact hwithin
  refine ⟨d, hd, fun t ht => ?_, ?_⟩
  · rw [Bool.eq_iff_iff]
    refine ⟨fun hcontains => ?_, (isWithin_iff.mp hwithin).1 t ht⟩
    obtain ⟨a', ha', hcontains'⟩ := hfixed t ht hcontains
    obtain ⟨d', hd', hfix, -⟩ := hreach ha'
    cases hd.symm.trans hd'
    exact hfix t ht hcontains'
  · rw [Bool.eq_iff_iff]
    refine ⟨fun hi => ?_, (isWithin_iff.mp hwithin).2⟩
    obtain ⟨a', ha', hi'⟩ := hinherits hi
    obtain ⟨d', hd', -, hinh⟩ := hreach ha'
    cases hd.symm.trans hd'
    exact hinh hi'

end Excerpt

end ScriptPack.Python

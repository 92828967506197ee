import ScriptPack.Python.Grammar

/-!
The parsing automaton of the grammar. A state is the list of productions that may be under way at a
point of the text, each with a dot and with the terminals that may follow it; the states are
computed when they are reached. What a state does with a terminal is decided by the ranks of the
steps at the dot, and where these leave a choice open all remaining actions are taken.
-/

namespace ScriptPack.Python

/-- A production that has been read up to its dot, and the terminals that may come after it. -/
structure Item where
  production : Production
  dot : Nat
  follow : TokenSet

namespace Item

def next? (i : Item) : Option Symbol := (i.production.steps[i.dot]?).map (·.symbol)

def isFinished (i : Item) : Bool := i.dot == i.production.steps.length

def sameCore (i j : Item) : Bool := i.production.number == j.production.number && i.dot == j.dot

/-- The level of the step in front of the dot. -/
def levelBefore (i : Item) : Int :=
  match i.dot with
  | 0 => 0
  | k + 1 => ((i.production.steps[k]?).bind (·.level)).getD 0

end Item

abbrev State := List Item

/-- What may follow a phrase inside another one: some terminals for certain, and, if the phrase may
end the other one, whatever may follow that. -/
structure Lookahead where
  fixed : TokenSet
  inherits : Bool
  deriving DecidableEq

namespace Lookahead

def none : Lookahead := ⟨∅, false⟩

def join (a b : Lookahead) : Lookahead := ⟨a.fixed ∪ b.fixed, a.inherits || b.inherits⟩

/-- The terminals after the phrase, given those after the outer one. -/
def resolve (a : Lookahead) (outer : TokenSet) : TokenSet :=
  if a.inherits then a.fixed ∪ outer else a.fixed

end Lookahead

namespace Automaton

/-- Applies `f` until nothing changes, at most `rounds` times. -/
def settle {α : Type} [BEq α] (f : α → α) : Nat → α → α
  | 0, a => a
  | rounds + 1, a =>
    let b := f a
    if b == a then a else settle f rounds b

def startSet (table : Array TokenSet) : Symbol → TokenSet
  | .terminal t => .singleton t
  | .nonterminal x => table.getD x.ctorIdx ∅

/-- The terminals that a phrase of each kind may begin with. -/
def startTable : Array TokenSet :=
  settle
    (fun table => Grammar.productions.foldl
      (fun table p =>
        match p.steps with
        | [] => table
        | s :: _ => table.modify p.head.ctorIdx (· ∪ startSet table s.symbol))
      table)
    Nonterminal.count (Array.replicate Nonterminal.count ∅)

def starts (s : Symbol) : TokenSet := startSet startTable s

/-- A phrase `inner` at the front of a phrase `outer`. -/
structure Edge where
  outer : Nonterminal
  inner : Nonterminal
  after : Lookahead
  deriving DecidableEq

def edges : List Edge :=
  (Grammar.productions.filterMap fun p =>
    match p.steps with
    | ⟨.nonterminal x, _, _⟩ :: [] => some ⟨p.head, x, ⟨∅, true⟩⟩
    | ⟨.nonterminal x, _, _⟩ :: s :: _ => some ⟨p.head, x, ⟨starts s.symbol, false⟩⟩
    | _ => none).eraseDups

/-- For each kind of phrase that may stand at the very front of an `x`, what may follow it there;
the kinds that cannot stand there have no entry. -/
def leftCorners (x : Nonterminal) : Array (Option Lookahead) :=
  settle
    (fun table => edges.foldl
      (fun table e =>
        match table.getD e.outer.ctorIdx none with
        | none => table
        | some outer =>
          let after : Lookahead := ⟨e.after.resolve outer.fixed, e.after.inherits && outer.inherits⟩
          table.modify e.inner.ctorIdx fun known =>
            some ((known.getD .none).join after))
      table)
    Nonterminal.count
    ((Array.replicate Nonterminal.count none).set! x.ctorIdx (some ⟨∅, true⟩))

/-- The productions at the front of an `x` that begin with each symbol, by the symbol's index. -/
def openings (x : Nonterminal) : Array (List (Production × Lookahead)) :=
  let corners := leftCorners x
  Grammar.productions.foldr
    (fun p table =>
      match p.steps, corners.getD p.head.ctorIdx none with
      | s :: _, some after => table.modify s.symbol.index ((p, after) :: ·)
      | _, _ => table)
    (Array.replicate Symbol.count [])

def openingTable : Array (Array (List (Production × Lookahead))) :=
  (Nonterminal.all.map openings).toArray

def openingsWith (x : Nonterminal) (s : Symbol) : List (Production × Lookahead) :=
  (openingTable.getD x.ctorIdx #[]).getD s.index []

end Automaton

namespace State

/-- Adds an item, or the terminals after it to an item with the same production and dot. -/
def insert (i : Item) : State → State
  | [] => [i]
  | j :: s =>
    if i.sameCore j then { j with follow := j.follow ∪ i.follow } :: s
    else j :: insert i s

/-- Adds all items, of which no two have the same production and dot. -/
def insertAll (items : List Item) : State → State
  | [] => items
  | state => items.foldl (fun state i => insert i state) state

/-- The state after reading a symbol. -/
def goto (state : State) (s : Symbol) : State :=
  state.foldl
    (fun reached i =>
      match i.production.steps.drop i.dot with
      | [] => reached
      | step :: rest =>
        let reached :=
          if step.symbol == s then insert { i with dot := i.dot + 1 } reached else reached
        match step.symbol with
        | .terminal _ => reached
        | .nonterminal x =>
          let outer :=
            match rest with
            | [] => i.follow
            | after :: _ => Automaton.starts after.symbol
          insertAll
            ((Automaton.openingsWith x s).map fun (p, after) => ⟨p, 1, after.resolve outer⟩)
            reached)
    []

/-- The state before any text: a document is to be read, and nothing follows it. -/
def initial : State :=
  Grammar.productions.filterMap fun p => if p.head = .document then some ⟨p, 0, ∅⟩ else none

/-- The terminals that the state can do something with. -/
def expected (state : State) : TokenSet :=
  state.foldl
    (fun found i =>
      match i.next? with
      | none => found ∪ i.follow
      | some s => found ∪ Automaton.starts s)
    ∅

end State

/-- What a state does with a terminal: reads it, or closes finished productions, or both. -/
structure Choice where
  shift : Bool
  reductions : List Production

namespace State

def canShift (state : State) (t : Terminal) : Bool :=
  state.any fun i =>
    match i.next? with
    | none => false
    | some s => (Automaton.starts s).contains t

/-- The productions that are finished in front of `t`, those of the highest level only. -/
def finishedBefore (state : State) (t : Terminal) : List Production :=
  let found := state.filterMap fun i =>
    if i.isFinished && i.follow.contains t then some i.production else none
  match found with
  | [] => []
  | p :: rest =>
    let top := rest.foldl (fun top q => max top q.level) p.level
    found.filter fun q => q.level == top

/-- The levels of the productions under way that could go on with `t`. -/
def openLevels (state : State) (t : Terminal) : List Int :=
  state.filterMap fun i =>
    match i.next? with
    | none => none
    | some s => if i.dot != 0 && (Automaton.starts s).contains t then some i.levelBefore else none

/-- Reading on and closing a production compete: the higher level wins; at the same level the side
to which the finished productions bind decides, and where they disagree both are kept. -/
def choose (state : State) (t : Terminal) : Choice :=
  let finished := state.finishedBefore t
  let shift := state.canShift t
  match finished with
  | [] => ⟨shift, []⟩
  | p :: _ =>
    if !shift then ⟨false, finished⟩
    else
      let levels := state.openLevels t
      let higher := levels.any (· > p.level)
      let lower := levels.any (· < p.level)
      if higher && lower then ⟨true, finished⟩
      else if higher then ⟨true, []⟩
      else if lower then ⟨false, finished⟩
      else if finished.all (·.side == some .left) then ⟨false, finished⟩
      else if finished.all (·.side == some .right) then ⟨true, []⟩
      else ⟨true, finished⟩

end State

end ScriptPack.Python

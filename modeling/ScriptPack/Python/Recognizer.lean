import ScriptPack.Python.Automaton
import ScriptPack.Python.Lexer
import ScriptPack.Python.Tree

/-!
Parsing a source text into a syntax tree. As long as more than one reading of the text is possible
the readings are followed side by side; each reads the next token with its own state in mind. A text
has a tree when some reading reaches its end.
-/

namespace ScriptPack.Python

structure Frame where
  state : State
  tree : Tree

abbrev Stack := List Frame

namespace Stack

def state : Stack → State
  | [] => .initial
  | frame :: _ => frame.state

def push (tree : Tree) (stack : Stack) : Stack :=
  ⟨(state stack).goto tree.symbol, tree⟩ :: stack

/-- Closes a production whose symbols are the topmost trees of the stack. -/
def reduce? (p : Production) (stack : Stack) : Option Stack :=
  let parts := (stack.take p.steps.length).map (·.tree)
  if parts.reverse.map (·.symbol) = p.steps.map (·.symbol) then
    some (push (.close p parts) (stack.drop p.steps.length))
  else none

/-- What a state does with a token, and as which kind it takes it: a keyword of no use there is an
identifier. -/
def chooseKind (state : State) (kind : Terminal) : Terminal × Choice :=
  let choice := state.choose kind
  if kind.isKeyword && !choice.shift && choice.reductions.isEmpty then
    (.identifier, state.choose .identifier)
  else (kind, choice)

/-- All stacks on which the token has been read, after closing productions in front of it. -/
def read (token : Token) : Nat → Stack → List Stack
  | 0, _ => []
  | fuel + 1, stack =>
    let (kind, choice) := chooseKind (state stack) token.kind
    let token := { token with kind }
    let closed := choice.reductions.flatMap fun p =>
      match reduce? p stack with
      | none => []
      | some stack => read token fuel stack
    if choice.shift then push (.leaf token) stack :: closed else closed

def sameStates : Stack → Stack → Bool
  | [], [] => true
  | f :: s, g :: u =>
    f.state.length == g.state.length
      && (f.state.zip g.state).all (fun (i, j) => i.sameCore j && i.follow == j.follow)
      && sameStates s u
  | _, _ => false

end Stack

/-- One reading of the text up to some point. -/
structure Reader where
  stack : Stack
  rest : List Char
  offset : Nat
  row : Nat
  layout : Layout

namespace Reader

def initial (source : List Char) : Reader := ⟨[], source, 0, 0, .initial⟩

def lineEnds (text : List Char) : Nat := text.count '\n'

/-- A bound on the number of productions that can be closed in front of one token: on every stack of
given height only so many productions of a single symbol can follow each other. -/
def closingBound (stack : Stack) : Nat := (stack.length + 2) * 32

/-- All readings that go on with one more token. -/
def advance (r : Reader) : List Reader :=
  match Lexer.read? (Stack.state r.stack).expected r.layout (r.offset == 0) r.rest with
  | none => []
  | some found =>
    let gap := r.rest.take found.gap
    let behind := r.rest.drop found.gap
    let text := behind.take found.length
    let row := r.row + lineEnds gap
    let token : Token := ⟨found.kind, gap, text, row⟩
    (Stack.read token (closingBound r.stack) r.stack).map fun stack =>
      { stack, rest := behind.drop found.length, offset := r.offset + found.gap + found.length
        row := row + lineEnds text, layout := found.layout }

/-- The trees of the document, if the reading has come to its end. -/
def finished? (r : Reader) : Option (List Tree) :=
  match r.stack with
  | ⟨_, .leaf ⟨.endOfText, _, _, _⟩⟩ :: earlier => some (earlier.reverse.map (·.tree))
  | _ => none

/-- Two readings with the same future. -/
def agrees (r q : Reader) : Bool :=
  r.offset == q.offset && r.layout == q.layout && Stack.sameStates r.stack q.stack

/-- Drops readings that agree with an earlier one. -/
def distinct : List Reader → List Reader
  | [] => []
  | r :: rest => r :: (distinct rest).filter (!r.agrees ·)

/-- Follows all readings token by token until one is at the end or none is left. -/
def run : Nat → List Reader → Option (List Tree)
  | 0, _ => none
  | fuel + 1, readers =>
    match distinct (readers.flatMap advance) with
    | [] => none
    | next =>
      match next.findSome? finished? with
      | some trees => some trees
      | none => run fuel next

/-- A bound on the number of tokens: every character brings at most one token of its own, one line
end, one indentation and its end. -/
def tokenBound (source : List Char) : Nat := 4 * (source.length + 2)

end Reader

/-- The trees of a source text without syntax errors. -/
def parse? (source : List Char) : Option (List Tree) :=
  Reader.run (Reader.tokenBound source) [.initial source]

end ScriptPack.Python

import ScriptPack.Python.Grammar

/-!
Syntax trees. A leaf is a token together with the text skipped in front of it, so the leaves of a
tree, one after the other, spell the part of the source that the tree covers. A repetition is kept
flat: its node has all items as children, and since items are added at the end, children are stored
last one first.
-/

namespace ScriptPack.Python

structure Token where
  kind : Terminal
  gap : List Char
  text : List Char
  /-- The number of line ends in front of the token's text. -/
  row : Nat

inductive Tree
  | leaf (token : Token)
  | node (head : Nonterminal) (reversedChildren : List Tree)

namespace Tree

def symbol : Tree → Symbol
  | leaf token => .terminal token.kind
  | node head _ => .nonterminal head

def children : Tree → List Tree
  | leaf _ => []
  | node _ reversedChildren => reversedChildren.reverse

/-- The node of a finished production; `parts` are its children, last one first. -/
def close (p : Production) (parts : List Tree) : Tree :=
  if p.isRepetition then
    match parts.getLast? with
    | some (node _ earlier) => node p.head (parts.dropLast ++ earlier)
    | _ => node p.head parts
  else node p.head parts

mutual

/-- The tokens of a tree from left to right, in front of `after`. -/
def leavesBefore (after : List Token) : Tree → List Token
  | leaf token => token :: after
  | node _ reversedChildren => leavesOfReversed after reversedChildren

def leavesOfReversed (after : List Token) : List Tree → List Token
  | [] => after
  | tree :: earlier => leavesOfReversed (leavesBefore after tree) earlier

end

def leaves (tree : Tree) : List Token := leavesBefore [] tree

/-- The source text from the first token of the tree to its last one. -/
def text (tree : Tree) : List Char :=
  match tree.leaves with
  | [] => []
  | first :: rest => first.text ++ rest.flatMap fun token => token.gap ++ token.text

/-- The row in which the tree's first token begins. -/
def row (tree : Tree) : Nat :=
  match tree.leaves with
  | [] => 0
  | first :: _ => first.row

end Tree

end ScriptPack.Python

import ScriptPack.Python.Symbol

/-!
Tokens that depend on more than the text at hand: line ends, changes of indentation, and the parts
of string literals. They are read against a `Layout`, which remembers the open indentations and the
open quotes, and against the set of terminals that the parser can use at this point.
-/

namespace ScriptPack.Python

/-- An opening quote, as far as it matters for what stands before the closing one. -/
structure Quote where
  mark : Char
  triple : Bool
  raw : Bool
  bytes : Bool
  format : Bool
  deriving DecidableEq, Repr

structure Layout where
  indents : List Nat
  quotes : List Quote
  inFormat : Bool
  deriving DecidableEq, Repr

namespace Layout

def initial : Layout := ⟨[0], [], false⟩

end Layout

/-- A token at the front of a text: it begins after `gap` characters and has `length` of them. -/
structure Reading where
  kind : Terminal
  gap : Nat
  length : Nat
  layout : Layout
  deriving DecidableEq, Repr

def nul : Char := '\x00'

/-- The number of characters at the front of the text that satisfy `p`. -/
def runLength (p : Char → Bool) : List Char → Nat
  | [] => 0
  | c :: rest => if p c then runLength p rest + 1 else 0

def startsWith (c : Char) : List Char → Bool
  | [] => false
  | d :: _ => c == d

namespace Layout

/-- What a scan of string content comes to. -/
inductive Content
  | text (length : Nat)
  | close (length : Nat)
  | nothing
  deriving DecidableEq, Repr

/-- Content that ends here; empty content is no token. -/
def Content.ending (started : Bool) (length : Nat) : Content :=
  if started then .text length else .nothing

/-- Steps over what a backslash in a raw string covers: a quote or a backslash, then a line end. -/
def rawEscape (q : Quote) (text : List Char) : Nat :=
  let covered : Nat :=
    match text with
    | [] => 0
    | c :: _ => if c == q.mark || c == '\\' then 1 else 0
  match text.drop covered with
  | '\r' :: '\n' :: _ => covered + 2
  | '\r' :: _ => covered + 1
  | '\n' :: _ => covered + 1
  | _ => covered

/-- Reads string content up to the closing quote, an escape, a brace of a format string, or a line
end that the string may not contain. `skip` characters are still covered by an earlier backslash,
and `started` says whether there is content before this point. -/
def content (q : Quote) (skip : Nat) (started : Bool) (done : Nat) : List Char → Content
  | [] => .nothing
  | c :: rest =>
    match skip with
    | skip + 1 => content q skip started (done + 1) rest
    | 0 =>
      if c == nul then .nothing
      else if q.format && (c == '\x7b' || c == '\x7d') then .ending started done
      else if c == '\\' then
        if q.raw then content q (rawEscape q rest) started (done + 1) rest
        else if q.bytes then
          match rest with
          | 'N' :: _ | 'u' :: _ | 'U' :: _ => content q 2 true (done + 1) rest
          | _ => .ending started done
        else .ending started done
      else if c == q.mark then
        if q.triple then
          match rest with
          | d :: e :: _ =>
            if d == q.mark then
              if e == q.mark then
                if started then .text done else .close (done + 3)
              else .text (done + 2)
            else .text (done + 1)
          | d :: [] => if d == q.mark then .text (done + 2) else .text (done + 1)
          | [] => .text (done + 1)
        else if started then .text done else .close (done + 1)
      else if c == '\n' && started && !q.triple then .nothing
      else content q 0 true (done + 1) rest

/-- An indentation is remembered modulo this number of columns. -/
def indentLimit : Nat := 256

/-- What stands between a token and the next one on a new line: blanks, line ends, comments and
joined lines. -/
structure Margin where
  sawLineEnd : Bool
  indent : Nat
  commentIndent : Option Nat
  length : Nat
  deriving DecidableEq, Repr

/-- A step through the margin; `inComment` says whether a comment is being skipped. The scan gives
up at a comment behind a token (if comments matter here) and at a backslash that joins no lines. -/
def margin (comments : Bool) (inComment : Bool) (m : Margin) : List Char → Option Margin
  | [] => some { m with sawLineEnd := true, indent := 0 }
  | c :: rest =>
    let m' := { m with length := m.length + 1 }
    if inComment then
      if c == '\n' || c == nul then margin comments false { m' with indent := 0 } rest
      else margin comments true m' rest
    else if c == '\n' then
      margin comments false { m' with sawLineEnd := true, indent := 0 } rest
    else if c == ' ' then margin comments false { m' with indent := m.indent + 1 } rest
    else if c == '\r' || c == '\x0c' then margin comments false { m' with indent := 0 } rest
    else if c == '\t' then margin comments false { m' with indent := m.indent + 8 } rest
    else if c == '#' && comments then
      if m.sawLineEnd then
        margin comments true { m' with commentIndent := some (m.commentIndent.getD m.indent) } rest
      else none
    else if c == '\\' then
      match rest with
      | [] => some { m' with sawLineEnd := true, indent := 0 }
      | '\n' :: rest => margin comments false { m' with length := m'.length + 1 } rest
      | '\r' :: [] =>
        some { m' with sawLineEnd := true, indent := 0, length := m'.length + 1 }
      | '\r' :: '\n' :: rest => margin comments false { m' with length := m'.length + 2 } rest
      | _ => none
    else some m

def isQuoteFlag (c : Char) : Bool := ['f', 'F', 'r', 'R', 'b', 'B', 'u', 'U'].contains c

/-- An opening quote with its flags, and its length. -/
def openingQuote (text : List Char) : Option (Quote × Nat) :=
  let count := runLength isQuoteFlag text
  let flags := text.take count
  let quote (mark : Char) (triple : Bool) : Quote :=
    ⟨mark, triple, flags.any fun c => c == 'r' || c == 'R',
      flags.any fun c => c == 'b' || c == 'B', flags.any fun c => c == 'f' || c == 'F'⟩
  match text.drop count with
  | '`' :: _ => some (quote '`' false, count + 1)
  | '\'' :: '\'' :: '\'' :: _ => some (quote '\'' true, count + 3)
  | '\'' :: _ => some (quote '\'' false, count + 1)
  | '"' :: '"' :: '"' :: _ => some (quote '"' true, count + 3)
  | '"' :: _ => some (quote '"' false, count + 1)
  | _ => none

/-- The line end, the change of indentation or the opening quote at the front of the text. -/
def lineToken (valid : TokenSet) (layout : Layout) (text : List Char) : Option Reading := do
  let comments := valid.contains .indent || valid.contains .dedent || valid.contains .newline
    || valid.contains .kwExcept
  let m ← margin comments false ⟨false, 0, none, 0⟩ text
  let rest := text.drop m.length
  let top := layout.indents.head?.getD 0
  let quoteAhead := startsWith '"' rest || startsWith '\'' rest || startsWith '`' rest
  let inBrackets := valid.contains .rightBrace || valid.contains .rightParen
    || valid.contains .rightBracket
  let mayDedent := valid.contains .dedent
    || (!valid.contains .newline && !(valid.contains .stringStart && quoteAhead) && !inBrackets)
  let commentLeft := match m.commentIndent with
    | none => true
    | some column => column < top
  if m.sawLineEnd && !layout.indents.isEmpty && valid.contains .indent && m.indent > top then
    some ⟨.indent, 0, 0, { layout with indents := m.indent % indentLimit :: layout.indents }⟩
  else if m.sawLineEnd && !layout.indents.isEmpty && mayDedent && m.indent < top
      && !layout.inFormat && commentLeft then
    some ⟨.dedent, 0, 0, { layout with indents := layout.indents.tail }⟩
  else if m.sawLineEnd && valid.contains .newline then
    some ⟨.newline, 0, 0, layout⟩
  else if m.commentIndent.isNone && valid.contains .stringStart then
    match openingQuote rest with
    | none => none
    | some (q, length) =>
      some ⟨.stringStart, m.length, length,
        { layout with quotes := q :: layout.quotes, inFormat := q.format }⟩
  else none

/-- A token of the string that is open, if there is one; `none` leaves the text to `lineToken`. -/
def stringToken (valid : TokenSet) (layout : Layout) (text : List Char) :
    Option (Option Reading) :=
  match layout.quotes with
  | [] => none
  | q :: outer =>
    let brace := startsWith '\x7b' text || startsWith '\x7d' text
    if valid.contains .doubledBrace && brace && q.format then
      match text with
      | c :: d :: _ => some (if c == d then some ⟨.doubledBrace, 0, 2, layout⟩ else none)
      | _ => some none
    else if valid.contains .stringContent then
      match content q 0 false 0 text with
      | .text length => some (some ⟨.stringContent, 0, length, layout⟩)
      | .close length =>
        some (some ⟨.stringEnd, 0, length, { layout with quotes := outer, inFormat := false }⟩)
      | .nothing => some none
    else none

/-- The layout-dependent token at the front of the text. -/
def read? (valid : TokenSet) (layout : Layout) (text : List Char) : Option Reading :=
  match stringToken valid layout text with
  | some found => found
  | none => lineToken valid layout text

end Layout

end ScriptPack.Python

import ScriptPack.Python.Layout
import ScriptPack.Text.Identifier

/-!
Reading the next token of a source text. Blanks, comments and joined lines in front of it are the
token's gap. Which token is read depends on the terminals that the parser can use: of these the
longest one that fits is taken, and a keyword that the parser cannot use is an identifier.
-/

namespace ScriptPack.Python

open Text (isIdentifierStart isIdentifierContinue)

/-- Characters that separate tokens. -/
def isSeparator (c : Char) : Bool :=
  c == ' ' || c == '\t' || c == '\n' || c == '\r' || c == '\x0c' || c == '\u2060' || c == '\u200b'
    || c == '\ufeff'

namespace Lexer

def isHexDigit (c : Char) : Bool :=
  c.isDigit || ('a' ≤ c && c ≤ 'f') || ('A' ≤ c && c ≤ 'F')

def isOctalDigit (c : Char) : Bool := '0' ≤ c && c ≤ '7'

def isBinaryDigit (c : Char) : Bool := c == '0' || c == '1'

/-- Decimal digits in groups, each of which one underscore may close; `closable` says whether an
underscore may stand here. -/
def digitGroups (closable : Bool) : List Char → Nat
  | [] => 0
  | c :: rest =>
    if c.isDigit then digitGroups true rest + 1
    else if c == '_' && closable then digitGroups false rest + 1
    else 0

def digits (text : List Char) : Nat := digitGroups false text

/-- Digits in groups, each of which one underscore may open. -/
def openedGroups (isDigit : Char → Bool) : List Char → Nat
  | [] => 0
  | '_' :: c :: rest => if isDigit c then openedGroups isDigit rest + 2 else 0
  | c :: rest => if isDigit c then openedGroups isDigit rest + 1 else 0

/-- The length of a suffix letter, if one of `letters` stands here. -/
def suffix (letters : List Char) : List Char → Nat
  | [] => 0
  | c :: _ => if letters.contains c then 1 else 0

/-- The length with a suffix letter added to it. -/
def withSuffix (letters : List Char) (text : List Char) (length : Nat) : Nat :=
  length + suffix letters (text.drop length)

/-- The length of an integer with a base prefix, or 0. -/
def basedInteger (text : List Char) : Nat :=
  let groups (isDigit : Char → Bool) (rest : List Char) : Nat :=
    match openedGroups isDigit rest with
    | 0 => 0
    | k => withSuffix ['L', 'l'] text (k + 2)
  match text with
  | '0' :: b :: rest =>
    if b == 'x' || b == 'X' then groups isHexDigit rest
    else if b == 'o' || b == 'O' then groups isOctalDigit rest
    else if b == 'b' || b == 'B' then groups isBinaryDigit rest
    else 0
  | _ => 0

/-- The length of the integer literal at the front of the text, or 0. -/
def integer (text : List Char) : Nat :=
  match digits text with
  | 0 => 0
  | k => max (basedInteger text) (withSuffix ['L', 'l', 'j', 'J'] text k)

/-- The length of an exponent, or 0. -/
def exponent : List Char → Nat
  | c :: rest =>
    if c == 'e' || c == 'E' then
      let sign := suffix ['+', '-'] rest
      match digits (rest.drop sign) with
      | 0 => 0
      | k => k + sign + 1
    else 0
  | [] => 0

/-- The length of the floating-point literal at the front of the text, or 0. -/
def float (text : List Char) : Nat :=
  let whole := digits text
  let finish (length : Nat) : Nat :=
    withSuffix ['L', 'l', 'j', 'J'] text (length + exponent (text.drop length))
  match text.drop whole with
  | '.' :: rest =>
    let places := digits rest
    if whole == 0 && places == 0 then 0 else finish (whole + 1 + places)
  | rest => if whole == 0 || exponent rest == 0 then 0 else finish whole

/-- The length of the escape sequence behind a backslash, or 0. -/
def escapeBody : List Char → Nat
  | '\r' :: '\n' :: _ => 2
  | 'u' :: rest => if runLength isHexDigit (rest.take 4) == 4 then 5 else 0
  | 'U' :: rest => if runLength isHexDigit (rest.take 8) == 8 then 9 else 0
  | 'x' :: rest => if runLength isHexDigit (rest.take 2) == 2 then 3 else 0
  | 'N' :: '\x7b' :: rest =>
    let name := runLength (fun c => c != '\x7d' && c != nul) rest
    if name != 0 && startsWith '\x7d' (rest.drop name) then name + 3 else 0
  | c :: rest =>
    if c.isDigit then runLength Char.isDigit ((c :: rest).take 3)
    else if ['\n', '\'', '"', '\\', 'a', 'b', 'f', 'n', 'r', 't', 'v'].contains c then 1
    else 0
  | [] => 0

/-- The length of a line comment from its sign on. -/
def comment (text : List Char) : Nat := runLength (fun c => c != '\n' && c != nul) text

/-- The length of a backslash that joins two lines, or 0. -/
def joinedLine : List Char → Nat
  | '\\' :: [] => 1
  | '\\' :: '\n' :: _ => 2
  | '\\' :: '\r' :: '\n' :: _ => 3
  | '\\' :: c :: _ => if c == nul then 2 else 0
  | _ => 0

/-- The longest usable sign at the front of the text. -/
def sign (valid : TokenSet) (text : List Char) : Option (Terminal × Nat) :=
  (Terminal.signs.find? fun (spelling, t) => valid.contains t && spelling.isPrefixOf text).map
    fun (spelling, t) => (t, spelling.length)

/-- The identifier or keyword at the front of the text. -/
def word (valid : TokenSet) (text : List Char) : Terminal × Nat :=
  let length := runLength isIdentifierContinue text
  match Terminal.keywords.lookup (String.ofList (text.take length)) with
  | some t =>
    if t == .kwExcept && valid.contains .exceptStar && startsWith '*' (text.drop length) then
      (.exceptStar, length + 1)
    else if valid.contains t then (t, length)
    else (.identifier, length)
  | none => (.identifier, length)

/-- The token at the front of a text that begins with no separator, comment or joined line. -/
def plain (valid : TokenSet) (text : List Char) : Option (Terminal × Nat) :=
  match text with
  | [] => some (.endOfText, 0)
  | c :: rest =>
    if isIdentifierStart c then some (word valid text)
    else
      let usable (t : Terminal) (length : Nat) : Nat := if valid.contains t then length else 0
      let conversion := match rest with
        | d :: _ => if c == '!' && 'a' ≤ d && d ≤ 'z' then usable .conversion 2 else 0
        | [] => 0
      let whole := usable .integer (integer text)
      let fraction := usable .float (float text)
      if conversion != 0 then some (.conversion, conversion)
      else if fraction > whole then some (.float, fraction)
      else if whole != 0 then some (.integer, whole)
      else sign valid text

/-- The tokens inside string literals that take in blanks. -/
def insideString (valid : TokenSet) (text : List Char) : Option (Terminal × Nat × Nat) :=
  if (valid.contains .loneBackslash || valid.contains .escape) && startsWith '\\' text then
    match escapeBody text.tail with
    | 0 => some (.loneBackslash, 0, 1)
    | k => some (.escape, 0, k + 1)
  else if valid.contains .formatText then
    let gap := runLength (· == '\n') text
    let length := runLength (fun c => c != '\x7b' && c != '\x7d' && c != '\n' && c != nul)
      (text.drop gap)
    if length == 0 then none else some (.formatText, gap, length)
  else none

/-- Reads the token behind `skipped` characters of gap. Every round skips a run of separators, a
comment or a joined line, so `fuel` rounds are enough when the text has fewer characters. -/
def readFrom (valid : TokenSet) (layout : Layout) (start : Bool) :
    Nat → Nat → List Char → Option Reading
  | 0, _, _ => none
  | fuel + 1, skipped, text =>
    let mark := if start && startsWith '\ufeff' text then 1 else 0
    match layout.read? valid (text.drop mark) with
    | some r => some { r with gap := skipped + mark + r.gap }
    | none =>
      match insideString valid text with
      | some (kind, gap, length) => some ⟨kind, skipped + gap, length, layout⟩
      | none =>
        let blanks := runLength isSeparator text
        let rest := text.drop blanks
        let aside := if startsWith '#' rest then comment rest else joinedLine rest
        if aside != 0 then
          readFrom valid layout false fuel (skipped + blanks + aside) (rest.drop aside)
        else
          (plain valid rest).map fun (kind, length) => ⟨kind, skipped + blanks, length, layout⟩

/-- The next token of the text; `start` says that the text begins here. -/
def read? (valid : TokenSet) (layout : Layout) (start : Bool) (text : List Char) :
    Option Reading :=
  readFrom valid layout start (text.length + 1) 0 text

end Lexer

end ScriptPack.Python

import ScriptPack.Proofs.Python.Stacks
import ScriptPack.Proofs.Python.Tokens

/-!
A reading that goes on token by token, with one thing to do at each, outside of brackets and string
literals. Rounds are counted with slack, since all that matters in the end is that there are enough.
-/

namespace ScriptPack.Python

open Excerpt Stack Layout Lexer
open Reader (lineEnds)
open Text (isName)

/-- A point of a reading: the trees read so far, the text ahead and the row in which it begins. -/
structure Point where
  trees : List Tree
  rest : List Char
  row : Nat

def Point.reader (p : Point) (offset : Nat) : Reader :=
  ⟨ofTrees p.trees, p.rest, offset, p.row, .initial⟩

/-- A reading goes on from one point to another, by at most `k` tokens. -/
def Reads (k : Nat) (p q : Point) : Prop :=
  ∃ n ≤ k, ∀ offset, ∃ offset', ∀ fuel,
    Reader.run (n + fuel) [p.reader offset] = Reader.run fuel [q.reader offset']

variable {k l row : Nat} {p q r : Point} {trees trees' : List Tree} {t : Terminal}
  {gap text rest name : List Char}

theorem Reads.refl (p : Point) : Reads 0 p p :=
  ⟨0, Nat.le_refl 0, fun offset => ⟨offset, fun fuel => by rw [Nat.zero_add]⟩⟩

theorem Reads.trans (h : Reads k p q) (h' : Reads l q r) : Reads (k + l) p r := by
  obtain ⟨n, hn, hrun⟩ := h
  obtain ⟨m, hm, hrun'⟩ := h'
  refine ⟨n + m, Nat.add_le_add hn hm, fun offset => ?_⟩
  obtain ⟨between, hfirst⟩ := hrun offset
  obtain ⟨offset', hsecond⟩ := hrun' between
  refine ⟨offset', fun fuel => ?_⟩
  rw [Nat.add_assoc, hfirst, hsecond]

theorem Reads.mono (h : Reads k p q) (hkl : k ≤ l) : Reads l p q := by
  obtain ⟨n, hn, hrun⟩ := h
  exact ⟨n, Nat.le_trans hn hkl, hrun⟩

/-! ### One token -/

/-- Productions that can always be closed in front of one token. -/
def closings : Nat := 63

theorem advance_eq
    (hlex : ∀ start, Lexer.read? (expected trees) .initial start (gap ++ (text ++ rest)) =
      some ⟨t, gap.length, text.length, .initial⟩)
    (hcloses : Closes t closings trees trees') (hshift : Does (symbols trees') t .shift)
    (row offset : Nat) :
    ∃ offset', Reader.advance (Point.reader ⟨trees, gap ++ (text ++ rest), row⟩ offset) =
      [Point.reader ⟨trees' ++ [.leaf ⟨t, gap, text, row + lineEnds gap⟩], rest,
        row + lineEnds gap + lineEnds text⟩ offset'] := by
  obtain ⟨n, hn, hread⟩ := hcloses.read
  have hbound : ∃ fuel, Reader.closingBound (ofTrees trees) = n + (fuel + 1) := by
    refine ⟨Reader.closingBound (ofTrees trees) - (n + 1), ?_⟩
    rw [closings] at hn
    rw [Reader.closingBound]
    omega
  obtain ⟨fuel, hbound⟩ := hbound
  refine ⟨offset + gap.length + text.length, ?_⟩
  have hstack := hread ⟨t, gap, text, row + lineEnds gap⟩ rfl (fuel + 1)
  rw [read_shift hshift] at hstack
  rw [Point.reader, Reader.advance]
  simp only [hlex, List.take_left, List.drop_left, hbound, hstack, List.map_cons, List.map_nil,
    Point.reader]

theorem finished?_eq_none (token : Token) (h : token.kind ≠ .endOfText) (trees : List Tree)
    (rest : List Char) (row offset : Nat) :
    (Point.reader ⟨trees ++ [.leaf token], rest, row⟩ offset).finished? = none := by
  rw [Reader.finished?]
  split
  · rename_i heq
    rw [Point.reader, ofTrees_concat, push] at heq
    cases heq
    exact absurd rfl h
  · rfl

/-- A token that does not end the text. -/
theorem Reads.token
    (hlex : ∀ start, Lexer.read? (expected trees) .initial start (gap ++ (text ++ rest)) =
      some ⟨t, gap.length, text.length, .initial⟩)
    (hcloses : Closes t closings trees trees') (hshift : Does (symbols trees') t .shift)
    (hends : t ≠ .endOfText) (row : Nat) :
    Reads 1 ⟨trees, gap ++ (text ++ rest), row⟩
      ⟨trees' ++ [.leaf ⟨t, gap, text, row + lineEnds gap⟩], rest,
        row + lineEnds gap + lineEnds text⟩ := by
  refine ⟨1, Nat.le_refl 1, fun offset => ?_⟩
  obtain ⟨offset', hadvance⟩ := advance_eq hlex hcloses hshift row offset
  have hopen := finished?_eq_none ⟨t, gap, text, row + lineEnds gap⟩ hends trees' rest
    (row + lineEnds gap + lineEnds text) offset'
  refine ⟨offset', fun fuel => ?_⟩
  rw [Nat.add_comm, Reader.run, List.flatMap_singleton, hadvance]
  simp only [Reader.distinct, List.filter_nil, List.findSome?_cons, List.findSome?_nil, hopen]

/-- A word or sign within a line. -/
theorem Reads.inLine (hplain : Lexer.plain (expected trees) (text ++ rest) = some (t, text.length))
    (hfront : IsFront (text ++ rest)) (hne : text ≠ []) (hline : '\n' ∉ text)
    (hcloses : Closes t closings trees trees')
    (hshift : Does (symbols trees') t .shift) (hends : t ≠ .endOfText) (blanks row : Nat) :
    Reads 1 ⟨trees, List.replicate blanks ' ' ++ (text ++ rest), row⟩
      ⟨trees' ++ [.leaf ⟨t, List.replicate blanks ' ', text, row⟩], rest, row⟩ := by
  have hlex (start : Bool) : Lexer.read? (expected trees) .initial start
      (List.replicate blanks ' ' ++ (text ++ rest)) =
      some ⟨t, (List.replicate blanks ' ').length, text.length, .initial⟩ := by
    rw [read?_blanks hcloses.formatText blanks hfront (List.append_ne_nil_of_left_ne_nil hne rest), behindGap,
      hplain, List.length_replicate]
    rfl
  have hgap : lineEnds (List.replicate blanks ' ') = 0 :=
    List.count_eq_zero.mpr fun h => absurd (List.eq_of_mem_replicate h) (by decide)
  have htext : lineEnds text = 0 := List.count_eq_zero.mpr hline
  simpa only [hgap, htext, Nat.add_zero] using Reads.token hlex hcloses hshift hends row

/-- The first word of a line, behind empty lines and comments. -/
theorem Reads.lineStart {lines : List (List Char)} (hvalid : BetweenLines (expected trees))
    (hlines : ∀ line ∈ lines, IsSpare line)
    (hplain : Lexer.plain (expected trees) (text ++ rest) = some (t, text.length))
    (hfront : IsFront (text ++ rest)) (hline : '\n' ∉ text)
    (hcloses : Closes t closings trees trees')
    (hshift : Does (symbols trees') t .shift) (hends : t ≠ .endOfText) (row : Nat) :
    Reads 1 ⟨trees, linesText lines ++ (text ++ rest), row⟩
      ⟨trees' ++ [.leaf ⟨t, linesText lines, text, row + lineEnds (linesText lines)⟩], rest,
        row + lineEnds (linesText lines)⟩ := by
  have hlex (start : Bool) : Lexer.read? (expected trees) .initial start
      (linesText lines ++ (text ++ rest)) =
      some ⟨t, (linesText lines).length, text.length, .initial⟩ := by
    rw [read?_lines hvalid hlines hfront start, behindGap, hplain]
    rfl
  have htext : lineEnds text = 0 := List.count_eq_zero.mpr hline
  simpa only [htext, Nat.add_zero] using Reads.token hlex hcloses hshift hends row

/-! ### Names, keywords and signs -/

theorem not_mem_of_isName (h : isName name = true) : '\n' ∉ name := fun hmem =>
  absurd (isNamePart_of_isName h _ hmem) (by decide)

/-- A name that is no keyword. -/
theorem Reads.identifier (hname : isName name = true)
    (hfree : Terminal.keywords.lookup (String.ofList name) = none) (hrest : Ends rest)
    (hshift : Does (symbols trees) .identifier .shift) (blanks row : Nat) :
    Reads 1 ⟨trees, List.replicate blanks ' ' ++ (name ++ rest), row⟩
      ⟨trees ++ [.leaf ⟨.identifier, List.replicate blanks ' ', name, row⟩], rest, row⟩ := by
  have hplain : Lexer.plain (expected trees) (name ++ rest) = some (.identifier, name.length) :=
    plain_identifier (isWord_of_isName hname) hfree (hrest.ahead (by decide))
  exact .inLine hplain (isFront_name hname hrest) (ne_nil_of_isName hname) (not_mem_of_isName hname)
    ((closes_refl hshift).mono (Nat.zero_le _)) hshift nofun blanks row

/-- A keyword of statements that import. -/
structure IsKeyword (word : List Char) (t : Terminal) : Prop where
  isName : isName word = true
  lookup : Terminal.keywords.lookup (String.ofList word) = some t
  ne_except : t ≠ .kwExcept
  ne_ending : t ≠ .endOfText

theorem IsKeyword.plain (h : IsKeyword text t) (hvalid : (expected trees).contains t = true)
    (hrest : Ends rest) : Lexer.plain (expected trees) (text ++ rest) = some (t, text.length) :=
  plain_keyword (isWord_of_isName h.isName) h.lookup h.ne_except hvalid (hrest.ahead (by decide))

theorem Reads.keyword (h : IsKeyword text t) (hrest : Ends rest)
    (hcloses : Closes t closings trees trees') (hshift : Does (symbols trees') t .shift)
    (blanks row : Nat) :
    Reads 1 ⟨trees, List.replicate blanks ' ' ++ (text ++ rest), row⟩
      ⟨trees' ++ [.leaf ⟨t, List.replicate blanks ' ', text, row⟩], rest, row⟩ :=
  .inLine (h.plain hcloses.expects hrest) (isFront_name h.isName hrest) (ne_nil_of_isName h.isName)
    (not_mem_of_isName h.isName) hcloses hshift h.ne_ending blanks row

/-- A keyword at the beginning of a line, behind empty lines and comments. -/
theorem Reads.firstKeyword (h : IsKeyword text t) (hrest : Ends rest)
    {lines : List (List Char)} (hvalid : BetweenLines (expected trees))
    (hlines : ∀ line ∈ lines, IsSpare line) (hcloses : Closes t closings trees trees')
    (hshift : Does (symbols trees') t .shift) (row : Nat) :
    Reads 1 ⟨trees, linesText lines ++ (text ++ rest), row⟩
      ⟨trees' ++ [.leaf ⟨t, linesText lines, text, row + lineEnds (linesText lines)⟩], rest,
        row + lineEnds (linesText lines)⟩ :=
  .lineStart hvalid hlines (h.plain hcloses.expects hrest) (isFront_name h.isName hrest)
    (not_mem_of_isName h.isName) hcloses hshift h.ne_ending row

theorem Reads.comma (hcloses : Closes .comma closings trees trees')
    (hshift : Does (symbols trees') .comma .shift) (rest : List Char) (row : Nat) :
    Reads 1 ⟨trees, ',' :: rest, row⟩ ⟨trees' ++ [.leaf ⟨.comma, [], [','], row⟩], rest, row⟩ :=
  @Reads.inLine _ _ _ [','] _ (plain_comma hcloses.expects rest)
    ⟨show isSolid ',' = true ∧ ',' ≠ '#' by decide, rfl⟩ (List.cons_ne_nil _ _) (by decide) hcloses
    hshift nofun 0 row

theorem Reads.dot (hcloses : Closes .dot closings trees trees')
    (hshift : Does (symbols trees') .dot .shift)
    (hrest : Ahead (fun c => c.isDigit = false ∧ c ≠ '.') rest) (row : Nat) :
    Reads 1 ⟨trees, '.' :: rest, row⟩ ⟨trees' ++ [.leaf ⟨.dot, [], ['.'], row⟩], rest, row⟩ :=
  @Reads.inLine _ _ _ ['.'] _ (plain_dot hcloses.expects hrest)
    ⟨show isSolid '.' = true ∧ '.' ≠ '#' by decide, rfl⟩ (List.cons_ne_nil _ _) (by decide) hcloses
    hshift nofun 0 row

/-- The end of a statement's line; the line end itself is left to the token behind it. -/
theorem Reads.lineEnd {note : List Char} {lines : List (List Char)} (hnote : IsNote note)
    (hlines : ∀ line ∈ lines, IsSpare line) (hrest : IsFront rest)
    (hcloses : Closes .newline closings trees trees')
    (hshift : Does (symbols trees') .newline .shift) (row : Nat) :
    ∃ token, Reads 1 ⟨trees, note ++ '\n' :: (linesText lines ++ rest), row⟩
      ⟨trees' ++ [.leaf token], '\n' :: (linesText lines ++ rest), row⟩ ∧
        token.kind = .newline := by
  have hends : lineEnds note = 0 := by
    rw [lineEnds, List.count_eq_zero]
    rcases hnote with rfl | ⟨text, htext, rfl⟩
    · exact List.not_mem_nil
    · intro hmem
      rcases List.mem_append.mp hmem with hmem | hmem
      · exact absurd (List.eq_of_mem_replicate hmem) (by decide)
      · rcases List.mem_cons.mp hmem with hmem | hmem
        · cases hmem
        · exact (htext _ hmem).1 rfl
  refine ⟨⟨.newline, note, [], row⟩, ?_, rfl⟩
  have hread := @Reads.token _ _ _ note [] _
    (read?_lineEnd hcloses.expects hcloses.formatText hnote hlines hrest) hcloses hshift nofun row
  simpa only [List.nil_append, hends, Nat.add_zero, show lineEnds [] = 0 from rfl] using hread

end ScriptPack.Python

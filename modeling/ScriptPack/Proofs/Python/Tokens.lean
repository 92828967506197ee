import Mathlib.Data.Bool.AllAny
import ScriptPack.Proofs.Python.Fronts
import ScriptPack.Python.Lexer
import ScriptPack.Text.Word

/-!
Reading tokens outside of brackets and string literals, where no line is indented: words, signs, line
ends and the end of the text, behind blanks, empty lines and comments.
-/

namespace ScriptPack.Python

open Text (isIdentifierStart isIdentifierContinue isName isNameStart isNamePart)

variable {p : Char → Bool} {c : Char} {text rest more : List Char} {valid : TokenSet}

/-- What a text begins with, if it does not end here. -/
def Ahead (P : Char → Prop) : List Char → Prop
  | [] => True
  | c :: _ => P c

theorem Ahead.imp {P Q : Char → Prop} (h : ∀ c, P c → Q c) (ha : Ahead P text) : Ahead Q text := by
  cases text with
  | nil => trivial
  | cons c rest => exact h c ha

theorem runLength_append (hall : ∀ c ∈ text, p c = true) (hrest : Ahead (p · = false) rest) :
    runLength p (text ++ rest) = text.length := by
  induction text with
  | nil =>
      cases rest with
      | nil => rfl
      | cons c rest => exact if_neg (by rw [show p c = false from hrest]; decide)
  | cons c text ih =>
      rw [List.cons_append, runLength, if_pos (hall c List.mem_cons_self),
        ih fun d hd => hall d (List.mem_cons_of_mem _ hd), List.length_cons]

namespace Layout

/-! ### Opening quotes -/

def isMark (c : Char) : Bool := c == '`' || c == '\'' || c == '"'

theorem openingQuote_of_ahead (h : Ahead (isMark · = false) (text.drop (runLength isQuoteFlag text))) :
    openingQuote text = none := by
  rw [openingQuote]
  simp only
  cases hdrop : text.drop (runLength isQuoteFlag text) with
  | nil => rfl
  | cons c rest =>
      rw [hdrop] at h
      have hc : isMark c = false := h
      simp only [isMark, Bool.or_eq_false_iff, beq_eq_false_iff_ne] at hc
      split <;> first | rfl | (rename_i heq; cases heq; simp at hc)

/-- A word with no quote in it or behind it does not open a string. -/
theorem openingQuote_word (htext : ∀ c ∈ text, isMark c = false)
    (hrest : Ahead (fun c => isMark c = false ∧ isQuoteFlag c = false) rest) :
    openingQuote (text ++ rest) = none := by
  refine openingQuote_of_ahead ?_
  induction text with
  | nil =>
      cases rest with
      | nil => trivial
      | cons c rest =>
          have hc : isMark c = false ∧ isQuoteFlag c = false := hrest
          rw [List.nil_append, runLength, if_neg (by rw [hc.2]; decide)]
          exact hc.1
  | cons c text ih =>
      rw [List.cons_append, runLength]
      split
      · exact ih fun d hd => htext d (List.mem_cons_of_mem _ hd)
      · exact htext c List.mem_cons_self

/-! ### Margins -/

/-- Whether comments matter between lines. -/
def comments (valid : TokenSet) : Bool :=
  valid.contains .indent || valid.contains .dedent || valid.contains .newline
    || valid.contains .kwExcept

variable {m : Margin} {k : Nat} {hash : Bool}

/-- A character that is no blank, no line end and no sign that joins lines. -/
def isSolid (c : Char) : Bool := !isSeparator c && c != '\\'

theorem margin_solid (hsolid : isSolid c = true) (hc : c ≠ '#' ∨ hash = false) :
    margin hash false m (c :: rest) = some m := by
  simp only [isSolid, isSeparator, Bool.and_eq_true, Bool.not_eq_true', Bool.or_eq_false_iff,
    beq_eq_false_iff_ne, bne_iff_ne] at hsolid
  have hhash : (c == '#' && hash) = false := by
    rcases hc with hc | hc
    · simp [hc]
    · simp [hc]
  rw [margin.eq_def]
  simp [hsolid, hhash]

theorem margin_blanks (text : List Char) : margin hash false m (List.replicate k ' ' ++ text) =
    margin hash false { m with indent := m.indent + k, length := m.length + k } text := by
  induction k generalizing m with
  | zero => rfl
  | succ k ih =>
      rw [List.replicate_succ, List.cons_append, margin.eq_def]
      simp [ih, Nat.add_comm, Nat.add_left_comm]

theorem margin_lineEnds (text : List Char) (k : Nat) :
    margin hash false m (List.replicate (k + 1) '\n' ++ text) =
      margin hash false ⟨true, 0, m.commentIndent, m.length + (k + 1)⟩ text := by
  induction k generalizing m with
  | zero =>
      rw [List.replicate_succ, List.cons_append, margin.eq_def]
      simp
  | succ k ih =>
      rw [List.replicate_succ, List.cons_append, margin.eq_def]
      simp [ih, Nat.add_comm, Nat.add_left_comm]

/-- A text within one line. -/
def IsLine (text : List Char) : Prop := ∀ c ∈ text, c ≠ '\n' ∧ c ≠ nul

theorem margin_comment {note : List Char} (hnote : IsLine note) (hash : Bool) (text : List Char) :
    margin hash true m (note ++ '\n' :: text) =
      margin hash false { m with indent := 0, length := m.length + (note.length + 1) } text := by
  induction note generalizing m with
  | nil =>
      rw [List.nil_append, margin.eq_def]
      simp
  | cons c note ih =>
      have hc := hnote c List.mem_cons_self
      rw [List.cons_append, margin.eq_def]
      simp [hc, ih fun d hd => hnote d (List.mem_cons_of_mem _ hd), Nat.add_comm,
        Nat.add_left_comm]

/-! ### Tokens that depend on the layout -/

theorem lineToken_eq_none (hm : ∀ m, margin (comments valid) false ⟨false, 0, none, 0⟩ text = some m →
    (m.sawLineEnd = true → m.indent = 0 ∧ valid.contains .newline = false) ∧
      openingQuote (text.drop m.length) = none) :
    lineToken valid .initial text = none := by
  rw [lineToken, ← comments]
  cases hmargin : margin (comments valid) false ⟨false, 0, none, 0⟩ text with
  | none => rfl
  | some m =>
      obtain ⟨hend, hquote⟩ := hm m hmargin
      cases hsaw : m.sawLineEnd with
      | false => simp [hsaw, hquote]
      | true =>
          obtain ⟨hindent, hnewline⟩ := hend hsaw
          simp [hsaw, hquote, hindent, hnewline, Layout.initial]

theorem lineToken_newline {m : Margin}
    (hm : margin (comments valid) false ⟨false, 0, none, 0⟩ text = some m)
    (hsaw : m.sawLineEnd = true) (hindent : m.indent = 0)
    (hnewline : valid.contains .newline = true) :
    lineToken valid .initial text = some ⟨.newline, 0, 0, .initial⟩ := by
  rw [lineToken, ← comments, hm]
  simp [hsaw, hindent, hnewline, Layout.initial]

theorem read?_initial (valid : TokenSet) (text : List Char) :
    Layout.read? valid .initial text = lineToken valid .initial text := rfl

end Layout

/-! ### Characters of names -/

theorem toNat_of_isNamePart (h : isNamePart c = true) : c.toNat < 128 := by
  have hranges : (((decide (c.val ≥ 'A'.val ∧ c.val ≤ 'Z'.val) ||
      (decide (c.val ≥ 'a'.val) && decide (c.val ≤ 'z'.val))) ||
      (decide (c.val ≥ '0'.val) && decide (c.val ≤ '9'.val))) || c == '_') = true := h
  simp only [Bool.or_eq_true, Bool.and_eq_true, decide_eq_true_eq, beq_iff_eq,
    UInt32.le_iff_toNat_le, ge_iff_le] at hranges
  rcases hranges with ((h | h) | h) | rfl
  · exact Nat.lt_of_le_of_lt h.2 (by decide)
  · exact Nat.lt_of_le_of_lt h.2 (by decide)
  · exact Nat.lt_of_le_of_lt h.2 (by decide)
  · decide

/-- What is true of a character of a name, found by trying all of ASCII. -/
theorem of_isNamePart
    (hp : ∀ n < 128, isNamePart (Char.ofNat n) = true → p (Char.ofNat n) = true)
    (h : isNamePart c = true) : p c = true := by
  have hc := hp c.toNat (toNat_of_isNamePart h)
  rw [Char.ofNat_toNat] at hc
  exact hc h

theorem isNamePart_of_isNameStart (h : isNameStart c = true) : isNamePart c = true := by
  simp only [isNameStart, isNamePart, Char.isAlphanum, Bool.or_eq_true] at h ⊢
  tauto

theorem isName_cons : isName (c :: text) = true ↔
    isNameStart c = true ∧ ∀ d ∈ text, isNamePart d = true := by
  rw [isName, Bool.and_eq_true, List.all_eq_true]

theorem isNamePart_of_isName (h : isName text = true) : ∀ c ∈ text, isNamePart c = true := by
  cases text with
  | nil => cases h
  | cons c text =>
      obtain ⟨hc, htext⟩ := isName_cons.mp h
      exact List.forall_mem_cons.mpr ⟨isNamePart_of_isNameStart hc, htext⟩

theorem ne_nil_of_isName (h : isName text = true) : text ≠ [] := by
  rintro rfl
  cases h

/-! ### Gaps -/

/-- What a gap ends at: the end of the text or a character that begins a token outside of strings. -/
structure IsFront (text : List Char) : Prop where
  solid : Ahead (fun c => Layout.isSolid c = true ∧ c ≠ '#') text
  plain : Layout.openingQuote text = none

theorem isSolid_iff : Layout.isSolid c = true ↔ isSeparator c = false ∧ c ≠ '\\' := by
  rw [Layout.isSolid, Bool.and_eq_true, Bool.not_eq_true', bne_iff_ne]

theorem IsFront.separator (h : IsFront text) : Ahead (isSeparator · = false) text :=
  h.solid.imp fun _ hc => (isSolid_iff.mp hc.1).1

theorem IsFront.ne_slash (h : IsFront text) : Ahead (· ≠ '\\') text :=
  h.solid.imp fun _ hc => (isSolid_iff.mp hc.1).2

theorem ahead_replicate {P : Char → Prop} (hc : P c) (h : Ahead P rest) (k : Nat) :
    Ahead P (List.replicate k c ++ rest) := by
  cases k with
  | zero => exact h
  | succ k => exact hc

/-- The lines between statements: empty ones and comments. -/
def IsSpare (line : List Char) : Prop :=
  line = [] ∨ ∃ note, Layout.IsLine note ∧ line = '#' :: note

/-- Whole lines. -/
def linesText (lines : List (List Char)) : List Char := lines.flatMap fun line => line ++ ['\n']

theorem linesText_cons (line : List Char) (lines : List (List Char)) :
    linesText (line :: lines) = line ++ '\n' :: linesText lines := by
  rw [linesText, List.flatMap_cons, List.append_assoc]
  rfl

/-- Where statements may begin, and nothing else that begins or ends a line. -/
structure BetweenLines (valid : TokenSet) : Prop where
  newline : valid.contains .newline = false
  comments : Layout.comments valid = false
  formatText : valid.contains .formatText = false

namespace Lexer

open Layout

variable {start : Bool} {fuel skipped k : Nat} {separators note : List Char}
  {lines : List (List Char)}

/-- The token behind a gap. -/
def behindGap (valid : TokenSet) (gap : Nat) (text : List Char) : Option Reading :=
  (plain valid text).map fun (kind, length) => ⟨kind, gap, length, .initial⟩

theorem insideString_eq_none (hformat : valid.contains .formatText = false)
    (htext : Ahead (· ≠ '\\') text) : insideString valid text = none := by
  have hslash : startsWith '\\' text = false := by
    cases text with
    | nil => rfl
    | cons c rest => exact beq_eq_false_iff_ne.mpr (Ne.symm htext)
  simp [insideString, hformat, hslash]

/-- What a round skips behind separators: a comment or the end of a joined line. -/
def aside (text : List Char) : Nat := if startsWith '#' text then comment text else joinedLine text

/-- A text whose first token is no part of the layout or of a string. -/
structure IsPlain (valid : TokenSet) (text : List Char) : Prop where
  layout : lineToken valid .initial text = none
  slash : Ahead (· ≠ '\\') text
  mark : Ahead (· ≠ '\ufeff') text

/-- One round of reading a token. -/
theorem readFrom_round (hformat : valid.contains .formatText = false)
    (h : IsPlain valid (separators ++ rest)) (hseparators : ∀ c ∈ separators, isSeparator c = true)
    (hrest : Ahead (isSeparator · = false) rest) :
    readFrom valid .initial start (fuel + 1) skipped (separators ++ rest) =
      if aside rest != 0 then
        readFrom valid .initial false fuel (skipped + separators.length + aside rest)
          (rest.drop (aside rest))
      else behindGap valid (skipped + separators.length) rest := by
  have hstart : (start && startsWith '\ufeff' (separators ++ rest)) = false := by
    have hmark := h.mark
    cases htext : separators ++ rest with
    | nil => exact Bool.and_false start
    | cons c tail =>
        rw [htext] at hmark
        have hc : startsWith '\ufeff' (c :: tail) = false := beq_eq_false_iff_ne.mpr (Ne.symm hmark)
        rw [hc, Bool.and_false]
  rw [readFrom]
  simp only [hstart, Bool.false_eq_true, if_false, List.drop_zero, read?_initial, h.layout,
    insideString_eq_none hformat h.slash, runLength_append hseparators hrest, List.drop_left,
    behindGap, aside]
  rfl

theorem aside_front (h : IsFront text) : aside text = 0 := by
  cases text with
  | nil => rfl
  | cons c rest =>
      have hc : c ≠ '#' := h.solid.2
      have hslash : c ≠ '\\' := h.ne_slash
      have hhash : startsWith '#' (c :: rest) = false := beq_eq_false_iff_ne.mpr (Ne.symm hc)
      rw [aside, hhash, if_neg Bool.false_ne_true]
      rw [joinedLine] <;> simp [hslash]

theorem aside_comment (hnote : IsLine note) (text : List Char) :
    aside ('#' :: note ++ '\n' :: text) = note.length + 1 := by
  have hhash : startsWith '#' ('#' :: note ++ '\n' :: text) = true := rfl
  rw [aside, hhash, if_pos rfl, comment]
  refine runLength_append (fun c hc => ?_) rfl
  rcases List.mem_cons.mp hc with rfl | hc
  · decide
  · simpa using hnote c hc

theorem mark_of_separator (h : Ahead (isSeparator · = false) text) : Ahead (· ≠ '\ufeff') text :=
  h.imp fun c hc => by
    rintro rfl
    exact absurd hc (by decide)

theorem separator_comment (text : List Char) : Ahead (isSeparator · = false) ('#' :: text) :=
  show isSeparator '#' = false by decide

/-- The token behind blanks, in a line. -/
theorem read?_blanks (hformat : valid.contains .formatText = false) (k : Nat) (h : IsFront rest)
    (hne : rest ≠ []) (start : Bool) :
    Lexer.read? valid .initial start (List.replicate k ' ' ++ rest) = behindGap valid k rest := by
  obtain ⟨c, tail, rfl⟩ := List.exists_cons_of_ne_nil hne
  have hplain : IsPlain valid (List.replicate k ' ' ++ c :: tail) := by
    refine ⟨lineToken_eq_none fun m hm => ?_, ahead_replicate (by decide) h.ne_slash k,
      ahead_replicate (by decide) (mark_of_separator h.separator) k⟩
    rw [margin_blanks, margin_solid h.solid.1 (.inl h.solid.2)] at hm
    cases hm
    refine ⟨nofun, ?_⟩
    simpa [List.drop_left'] using h.plain
  rw [Lexer.read?, readFrom_round hformat hplain (fun d hd => ?_) h.separator, aside_front h]
  · simp
  · cases List.eq_of_mem_replicate hd
    rfl

/-- Behind line ends there is no token of the layout where it does not matter where lines end. -/
theorem isPlain_lineEnds (hvalid : BetweenLines valid) (k : Nat)
    (hsolid : Ahead (isSolid · = true) text) (hquote : openingQuote text = none) :
    IsPlain valid (List.replicate k '\n' ++ text) := by
  refine ⟨lineToken_eq_none fun m hm => ?_,
    ahead_replicate (by decide) (hsolid.imp fun c hc => (isSolid_iff.mp hc).2) k,
    ahead_replicate (by decide) (mark_of_separator (hsolid.imp fun c hc => (isSolid_iff.mp hc).1)) k⟩
  rw [hvalid.comments] at hm
  cases text with
  | nil =>
      cases k with
      | zero =>
          cases hm
          exact ⟨fun _ => ⟨rfl, hvalid.newline⟩, hquote⟩
      | succ k =>
          rw [margin_lineEnds] at hm
          cases hm
          refine ⟨fun _ => ⟨rfl, hvalid.newline⟩, ?_⟩
          simpa [List.drop_left'] using hquote
  | cons c text =>
      cases k with
      | zero =>
          rw [List.replicate_zero, List.nil_append, margin_solid hsolid (.inr rfl)] at hm
          cases hm
          exact ⟨nofun, hquote⟩
      | succ k =>
          rw [margin_lineEnds, margin_solid hsolid (.inr rfl)] at hm
          cases hm
          refine ⟨fun _ => ⟨rfl, hvalid.newline⟩, ?_⟩
          simpa [List.drop_left'] using hquote

theorem separators_lineEnds (k : Nat) : ∀ c ∈ List.replicate k '\n', isSeparator c = true := by
  intro c hc
  cases List.eq_of_mem_replicate hc
  rfl

/-- The token behind line ends, empty lines and comments. -/
theorem readFrom_lines (hvalid : BetweenLines valid) (h : IsFront rest)
    (hlines : ∀ line ∈ lines, IsSpare line) (hfuel : lines.length < fuel) (k : Nat) :
    readFrom valid .initial start fuel skipped
        (List.replicate k '\n' ++ (linesText lines ++ rest)) =
      behindGap valid (skipped + k + (linesText lines).length) rest := by
  -- Line ends are gathered until a comment is ahead, which takes a round.
  induction lines generalizing start fuel skipped k with
  | nil =>
      obtain ⟨fuel, rfl⟩ := Nat.exists_eq_add_one.mpr hfuel
      have hplain := isPlain_lineEnds hvalid k (h.solid.imp fun c hc => hc.1) h.plain
      rw [show linesText [] = [] from rfl, List.nil_append,
        readFrom_round hvalid.formatText hplain (separators_lineEnds k) h.separator, aside_front h]
      simp
  | cons line lines ih =>
      have ih' {start : Bool} {fuel skipped : Nat} :=
        @ih start fuel skipped fun line hline => hlines line (List.mem_cons_of_mem _ hline)
      rw [linesText_cons, List.append_assoc, List.cons_append]
      rcases hlines line List.mem_cons_self with rfl | ⟨note, hnote, rfl⟩
      · have hgather : List.replicate k '\n' ++ ([] ++ '\n' :: (linesText lines ++ rest)) =
            List.replicate (k + 1) '\n' ++ (linesText lines ++ rest) := by
          simp [List.replicate_succ']
        rw [hgather, ih' (Nat.lt_of_succ_lt hfuel)]
        congr 1
        simp
        omega
      · obtain ⟨fuel, rfl⟩ := Nat.exists_eq_add_one.mpr (Nat.zero_lt_of_lt hfuel)
        have hplain := isPlain_lineEnds hvalid k
          (show Ahead (isSolid · = true) ('#' :: note ++ '\n' :: (linesText lines ++ rest)) from
            (show isSolid '#' = true by decide)) rfl
        rw [readFrom_round hvalid.formatText hplain (separators_lineEnds k) (separator_comment _),
          aside_comment hnote, if_pos (by simp)]
        have hdrop : ('#' :: note ++ '\n' :: (linesText lines ++ rest)).drop (note.length + 1) =
            List.replicate 1 '\n' ++ (linesText lines ++ rest) := by
          simp
        rw [hdrop, ih' (Nat.lt_of_succ_lt_succ hfuel)]
        congr 1
        simp
        omega

theorem length_le_linesText (lines : List (List Char)) : lines.length ≤ (linesText lines).length := by
  induction lines with
  | nil => exact Nat.le_refl 0
  | cons line lines ih =>
      rw [linesText_cons, List.length_append, List.length_cons, List.length_cons]
      omega

theorem read?_lines (hvalid : BetweenLines valid) (hlines : ∀ line ∈ lines, IsSpare line)
    (h : IsFront rest) (start : Bool) :
    Lexer.read? valid .initial start (linesText lines ++ rest) =
      behindGap valid (linesText lines).length rest := by
  have hfuel : lines.length < (linesText lines ++ rest).length + 1 := by
    have := length_le_linesText lines
    rw [List.length_append]
    omega
  have hread := @readFrom_lines rest valid start _ 0 lines hvalid h hlines hfuel 0
  rw [Lexer.read?]
  simpa only [Nat.zero_add, List.replicate_zero, List.nil_append] using hread

/-! ### Line ends -/

/-- A statement's line ends with nothing, or with a comment. -/
def IsNote (note : List Char) : Prop :=
  note = [] ∨ ∃ text, IsLine text ∧ note = List.replicate 2 ' ' ++ '#' :: text

theorem margin_lines (hlines : ∀ line ∈ lines, IsSpare line) (h : IsFront rest) {m : Margin}
    (hsaw : m.sawLineEnd = true) (hindent : m.indent = 0) :
    ∃ m', margin true false m (linesText lines ++ rest) = some m' ∧ m'.sawLineEnd = true ∧
      m'.indent = 0 := by
  induction lines generalizing m with
  | nil =>
      cases rest with
      | nil => exact ⟨_, rfl, rfl, rfl⟩
      | cons c rest => exact ⟨m, margin_solid h.solid.1 (.inl h.solid.2), hsaw, hindent⟩
  | cons line lines ih =>
      have ih' {m : Margin} := @ih (fun line hline => hlines line (List.mem_cons_of_mem _ hline)) m
      rw [linesText_cons, List.append_assoc, List.cons_append]
      rcases hlines line List.mem_cons_self with rfl | ⟨note, hnote, rfl⟩
      · exact (margin_lineEnds (linesText lines ++ rest) 0) ▸ ih' rfl rfl
      · have hhash : margin true false m ('#' :: note ++ '\n' :: (linesText lines ++ rest)) =
            margin true true { m with
              commentIndent := some (m.commentIndent.getD m.indent), length := m.length + 1 }
              (note ++ '\n' :: (linesText lines ++ rest)) := by
          rw [List.cons_append, margin.eq_def]
          simp [hsaw]
        rw [hhash, margin_comment hnote]
        exact ih' hsaw rfl

theorem lineToken_lineEnd (hnewline : valid.contains .newline = true)
    (hlines : ∀ line ∈ lines, IsSpare line) (h : IsFront rest) :
    lineToken valid .initial ('\n' :: (linesText lines ++ rest)) =
      some ⟨.newline, 0, 0, .initial⟩ := by
  have hcomments : comments valid = true := by
    rw [comments, hnewline, Bool.or_true, Bool.true_or]
  obtain ⟨m, hm, hsaw, hindent⟩ := @margin_lines rest lines hlines h ⟨true, 0, none, 0 + 1⟩ rfl rfl
  have hmargin : margin (comments valid) false ⟨false, 0, none, 0⟩
      ('\n' :: (linesText lines ++ rest)) = some m := by
    rw [hcomments]
    exact (margin_lineEnds (linesText lines ++ rest) 0).trans hm
  exact lineToken_newline hmargin hsaw hindent hnewline

/-- The end of a statement's line. -/
theorem read?_lineEnd (hnewline : valid.contains .newline = true)
    (hformat : valid.contains .formatText = false) {note : List Char} (hnote : IsNote note)
    (hlines : ∀ line ∈ lines, IsSpare line) (h : IsFront rest) (start : Bool) :
    Lexer.read? valid .initial start (note ++ '\n' :: (linesText lines ++ rest)) =
      some ⟨.newline, note.length, 0, .initial⟩ := by
  have hend := lineToken_lineEnd hnewline hlines h
  have hread (start : Bool) {fuel : Nat} (skipped : Nat) (hpos : 0 < fuel) :
      readFrom valid .initial start fuel skipped ('\n' :: (linesText lines ++ rest)) =
        some ⟨.newline, skipped, 0, .initial⟩ := by
    obtain ⟨fuel, rfl⟩ := Nat.exists_eq_add_one.mpr hpos
    have hmark : (start && startsWith '\ufeff' ('\n' :: (linesText lines ++ rest))) = false :=
      Bool.and_false start
    rw [readFrom]
    simp only [hmark, Bool.false_eq_true, if_false, List.drop_zero, read?_initial, hend]
    rfl
  rcases hnote with rfl | ⟨text, htext, rfl⟩
  · exact hread start 0 (Nat.succ_pos _)
  · have hplain : IsPlain valid
        (List.replicate 2 ' ' ++ ('#' :: text ++ '\n' :: (linesText lines ++ rest))) := by
      refine ⟨lineToken_eq_none fun m hm => ?_, show ' ' ≠ '\\' by decide,
        show ' ' ≠ '\ufeff' by decide⟩
      have hcomments : comments valid = true := by
        rw [comments, hnewline, Bool.or_true, Bool.true_or]
      rw [hcomments, margin_blanks, List.cons_append, margin.eq_def] at hm
      simp at hm
    have hseparators : ∀ c ∈ List.replicate 2 ' ', isSeparator c = true :=
      List.forall_mem_replicate.mpr (.inr rfl)
    rw [Lexer.read?, List.append_assoc, List.cons_append, ← List.cons_append,
      readFrom_round hformat hplain hseparators (separator_comment _), aside_comment htext,
      if_pos (by simp)]
    have hdrop : ('#' :: text ++ '\n' :: (linesText lines ++ rest)).drop (text.length + 1) =
        '\n' :: (linesText lines ++ rest) := by
      simp
    rw [hdrop, hread false _ (by simp)]
    congr 2
    simp
    omega

/-! ### Words and signs -/

theorem word_eq {name : List Char} (hname : ∀ c ∈ name, isIdentifierContinue c = true)
    (hrest : Ahead (isIdentifierContinue · = false) rest) :
    word valid (name ++ rest) =
      match Terminal.keywords.lookup (String.ofList name) with
      | some t =>
        if t == .kwExcept && valid.contains .exceptStar && startsWith '*' rest then
          (.exceptStar, name.length + 1)
        else if valid.contains t then (t, name.length)
        else (.identifier, name.length)
      | none => (.identifier, name.length) := by
  rewrite [word, runLength_append hname hrest, List.take_left, List.drop_left]
  rfl

/-- A name or a keyword that does not go on. -/
structure IsWord (name : List Char) : Prop where
  parts : ∀ c ∈ name, isIdentifierContinue c = true
  first : ∃ c ∈ name.head?, isIdentifierStart c = true

theorem isWord_of_isName (h : isName text = true) : IsWord text := by
  refine ⟨fun c hc => of_isNamePart (by decide +kernel) (isNamePart_of_isName h c hc), ?_⟩
  cases text with
  | nil => cases h
  | cons c text =>
      have hc := (isName_cons.mp h).1
      have hlt := toNat_of_isNamePart (isNamePart_of_isNameStart hc)
      refine ⟨c, rfl, ?_⟩
      rw [isIdentifierStart, if_pos hlt]
      exact hc

/-- What a name of a line ends at. -/
def Ends (text : List Char) : Prop := Ahead (· ∈ [' ', ',', '.', '\n']) text

theorem Ends.ahead {P : Char → Prop} [DecidablePred P] (h : Ends text)
    (hP : [' ', ',', '.', '\n'].all (P ·)) : Ahead P text :=
  h.imp (List.all_iff_forall_prop.mp hP)

theorem isFront_name (h : isName text = true) (hrest : Ends rest) : IsFront (text ++ rest) := by
  have hparts := isNamePart_of_isName h
  refine ⟨?_, openingQuote_word (fun c hc => ?_) (hrest.ahead (by decide))⟩
  · cases text with
    | nil => cases h
    | cons c text =>
        have hc : (isSolid c && c != '#') = true :=
          of_isNamePart (p := fun c => isSolid c && c != '#') (by decide +kernel)
            (hparts c List.mem_cons_self)
        rw [Bool.and_eq_true, bne_iff_ne] at hc
        exact hc
  · have hmark : (!isMark c) = true :=
      of_isNamePart (p := fun c => !isMark c) (by decide +kernel) (hparts c hc)
    simpa using hmark

theorem plain_word {name : List Char} (hname : IsWord name) (rest : List Char) :
    plain valid (name ++ rest) = some (word valid (name ++ rest)) := by
  obtain ⟨c, hc, hstart⟩ := hname.first
  obtain ⟨tail, rfl⟩ := List.head?_eq_some_iff.mp hc
  rw [List.cons_append, plain, if_pos hstart]

/-- A name that is no keyword is an identifier. -/
theorem plain_identifier {name : List Char} (hname : IsWord name)
    (hfree : Terminal.keywords.lookup (String.ofList name) = none)
    (hrest : Ahead (isIdentifierContinue · = false) rest) :
    plain valid (name ++ rest) = some (.identifier, name.length) := by
  rw [plain_word hname rest, word_eq hname.parts hrest, hfree]

/-- A keyword is one where it is of use. -/
theorem plain_keyword {name : List Char} {t : Terminal} (hname : IsWord name)
    (hkeyword : Terminal.keywords.lookup (String.ofList name) = some t) (hne : t ≠ .kwExcept)
    (hvalid : valid.contains t = true) (hrest : Ahead (isIdentifierContinue · = false) rest) :
    plain valid (name ++ rest) = some (t, name.length) := by
  rw [plain_word hname rest, word_eq hname.parts hrest, hkeyword]
  simp [hne, hvalid]

/-- What is no word, no number and no conversion is a sign. -/
theorem plain_sign (hc : isIdentifierStart c = false) (hmark : c ≠ '!')
    (hinteger : integer (c :: rest) = 0) (hfloat : float (c :: rest) = 0) :
    plain valid (c :: rest) = sign valid (c :: rest) := by
  rw [plain, if_neg (by rw [hc]; exact Bool.false_ne_true)]
  cases rest <;> simp [hinteger, hfloat, hmark]

theorem plain_comma (hvalid : valid.contains .comma = true) (rest : List Char) :
    plain valid (',' :: rest) = some (.comma, 1) := by
  rw [plain_sign (by decide) (by decide) rfl rfl]
  simp [sign, Terminal.signs, hvalid]

theorem digits_eq_zero (h : Ahead (·.isDigit = false) rest) : digits rest = 0 := by
  cases rest with
  | nil => rfl
  | cons c rest =>
      have hc : c.isDigit = false := h
      simp [digits, digitGroups, hc]

theorem plain_dot (hvalid : valid.contains .dot = true)
    (hrest : Ahead (fun c => c.isDigit = false ∧ c ≠ '.') rest) :
    plain valid ('.' :: rest) = some (.dot, 1) := by
  have hplaces : digits rest = 0 := digits_eq_zero (hrest.imp fun _ hc => hc.1)
  have hfloat : float ('.' :: rest) = 0 := by
    have hwhole : digits ('.' :: rest) = 0 := rfl
    simp [float, hwhole, hplaces]
  rw [plain_sign (by decide) (by decide) rfl hfloat]
  cases rest with
  | nil => simp [sign, Terminal.signs, hvalid]
  | cons c rest =>
      have hc : c ≠ '.' := hrest.2
      simp [sign, Terminal.signs, hvalid, hc.symm]

end Lexer

end ScriptPack.Python

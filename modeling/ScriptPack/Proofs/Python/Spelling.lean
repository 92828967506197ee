import Mathlib.Data.List.Basic
import ScriptPack.Python.Recognizer

/-!
How tokens are spelled. Whatever a state of the parser can use, a token that is read as a keyword has
the text of that keyword (`Lexer.read?_spelled`); to take it for an identifier later does not change
that, since an identifier is no keyword.
-/

namespace ScriptPack.Python

/-- A text that is read as a token of some kind: if that is a keyword, it is written as such. -/
def Spelled (kind : Terminal) (text : List Char) : Prop :=
  kind.isKeyword = true → Terminal.keywords.lookup (String.ofList text) = some kind

variable {valid : TokenSet} {layout : Layout} {text : List Char} {kind : Terminal} {r : Reading}

theorem Spelled.of_other (h : kind.isKeyword = false) (text : List Char) : Spelled kind text :=
  fun hkeyword => by rw [h] at hkeyword; cases hkeyword

/-- Whether a token of this kind can be part of a dotted name: a word, with keywords among them, or
a dot. -/
def Terminal.isInNames (kind : Terminal) : Bool :=
  kind.isKeyword || kind == .identifier || kind == .dot

theorem isKeyword_of_isInNames (h : kind.isInNames = false) : kind.isKeyword = false := by
  rw [Terminal.isInNames, Bool.or_eq_false_iff, Bool.or_eq_false_iff] at h
  exact h.1.1

/-! ### Tokens of the layout -/

namespace Layout

theorem stringToken_other (h : stringToken valid layout text = some (some r)) :
    r.kind.isInNames = false := by
  cases hquotes : layout.quotes with
  | nil =>
      simp only [stringToken, hquotes] at h
      cases h
  | cons q outer =>
      simp only [stringToken, hquotes] at h
      rcases ite_eq_iff.mp h with ⟨-, h⟩ | ⟨-, h⟩
      · -- a doubled brace of a format string
        split at h
        · rcases ite_eq_iff.mp (Option.some.inj h) with ⟨-, h⟩ | ⟨-, h⟩ <;> cases h
          rfl
        · cases h
      · rcases ite_eq_iff.mp h with ⟨-, h⟩ | ⟨-, h⟩
        · split at h <;> cases h <;> rfl
        · cases h

theorem lineToken_other (h : lineToken valid layout text = some r) : r.kind.isInNames = false := by
  obtain ⟨m, -, h⟩ := Option.bind_eq_some_iff.mp h
  -- one kind of token for each branch: indent, dedent, line end, opening quote
  rcases ite_eq_iff.mp h with ⟨-, h⟩ | ⟨-, h⟩
  · cases h; rfl
  rcases ite_eq_iff.mp h with ⟨-, h⟩ | ⟨-, h⟩
  · cases h; rfl
  rcases ite_eq_iff.mp h with ⟨-, h⟩ | ⟨-, h⟩
  · cases h; rfl
  rcases ite_eq_iff.mp h with ⟨-, h⟩ | ⟨-, h⟩
  · split at h <;> cases h
    rfl
  · cases h

/-- Line ends, indentations and the parts of string literals are no words and no dots. -/
theorem read?_other (h : read? valid layout text = some r) : r.kind.isInNames = false := by
  rw [read?] at h
  split at h
  · rename_i hstring
    rw [h] at hstring
    exact stringToken_other hstring
  · exact lineToken_other h

end Layout

namespace Lexer

theorem word_spelled (valid : TokenSet) (text : List Char) :
    Spelled (word valid text).1 (text.take (word valid text).2) := by
  rw [word]
  split
  · rename_i t hlookup
    split
    · -- `except` with a star behind it is a sign of its own
      exact .of_other rfl _
    · split
      · exact fun _ => hlookup
      · exact .of_other rfl _
  · exact .of_other rfl _

theorem sign_other {length : Nat} (h : sign valid text = some (kind, length)) :
    kind.isKeyword = false := by
  have hsigns : ∀ s ∈ Terminal.signs, s.2.isKeyword = false := by decide
  obtain ⟨s, hs, heq⟩ := Option.map_eq_some_iff.mp h
  cases heq
  exact hsigns s (List.mem_of_find?_eq_some hs)

theorem plain_spelled {length : Nat} (h : plain valid text = some (kind, length)) :
    Spelled kind (text.take length) := by
  cases text with
  | nil =>
      cases h
      exact .of_other rfl _
  | cons c rest =>
      rw [plain] at h
      split at h
      · have hword := word_spelled valid (c :: rest)
        rw [Option.some.inj h] at hword
        exact hword
      · rcases ite_eq_iff.mp h with ⟨-, h⟩ | ⟨-, h⟩
        · cases h; exact .of_other rfl _
        rcases ite_eq_iff.mp h with ⟨-, h⟩ | ⟨-, h⟩
        · cases h; exact .of_other rfl _
        rcases ite_eq_iff.mp h with ⟨-, h⟩ | ⟨-, h⟩
        · cases h; exact .of_other rfl _
        exact .of_other (sign_other h) _

theorem insideString_other {gap length : Nat}
    (h : insideString valid text = some (kind, gap, length)) : kind.isInNames = false := by
  rcases ite_eq_iff.mp h with ⟨-, h⟩ | ⟨-, h⟩
  · split at h <;> cases h <;> rfl
  rcases ite_eq_iff.mp h with ⟨-, h⟩ | ⟨-, h⟩
  · rcases ite_eq_iff.mp h with ⟨-, h⟩ | ⟨-, h⟩ <;> cases h
    rfl
  · cases h

/-- The token behind what was skipped so far, in a text that is given from its beginning on. -/
theorem readFrom_spelled {source : List Char} {start : Bool} {fuel skipped : Nat}
    (h : readFrom valid layout start fuel skipped (source.drop skipped) = some r) :
    Spelled r.kind ((source.drop r.gap).take r.length) := by
  induction fuel generalizing start skipped with
  | zero => cases h
  | succ fuel ih =>
      rw [readFrom] at h
      simp only at h
      split at h
      · rename_i found hfound
        cases h
        exact .of_other (isKeyword_of_isInNames (Layout.read?_other hfound)) _
      · split at h
        · rename_i hinside
          cases h
          exact .of_other (isKeyword_of_isInNames (insideString_other hinside)) _
        · -- what is skipped next: a comment or a joined line, behind some separators
          generalize (if startsWith '#' _ then _ else _ : Nat) = aside at h
          rcases ite_eq_iff.mp h with ⟨-, h⟩ | ⟨-, h⟩
          · rw [List.drop_drop, List.drop_drop, ← Nat.add_assoc] at h
            exact ih h
          · obtain ⟨⟨kind, length⟩, hplain, rfl⟩ := Option.map_eq_some_iff.mp h
            rw [List.drop_drop] at hplain
            exact plain_spelled hplain

/-- A token that is read as a keyword has its text. -/
theorem read?_spelled {start : Bool} (h : Lexer.read? valid layout start text = some r) :
    Spelled r.kind ((text.drop r.gap).take r.length) :=
  @readFrom_spelled valid layout r text start (text.length + 1) 0 h

end Lexer

end ScriptPack.Python

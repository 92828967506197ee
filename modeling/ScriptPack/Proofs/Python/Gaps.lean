import Mathlib.Data.List.TakeWhile
import ScriptPack.Proofs.Python.Soundness
import ScriptPack.Proofs.Python.Tokens
import ScriptPack.Proofs.Text.Ranges

/-!
What stands between the tokens of a text. In front of a word or a dot there are separators alone, or
the sign of a comment or of a joined line is among what is skipped; the word itself is a run of letters
that an identifier may hold (`parse?_formed`).
-/

namespace ScriptPack.Python

open Text (isBlank isIdentifierStart isIdentifierContinue)
open Lexer (IsWord)

variable {valid : TokenSet} {layout : Layout} {kind : Terminal} {c : Char} {text gap : List Char}

/-! ### Characters -/

/-- The signs of comments and joined lines, and the separators that are no blanks. -/
def isStray (c : Char) : Bool := c == '#' || c == '\\' || c == '\u2060' || c == '\u200b'

theorem stray_of_isSeparator (h : isSeparator c = true) (hblank : isBlank c = false) :
    isStray c = true := by
  simp only [isSeparator, Bool.or_eq_true, beq_iff_eq] at h
  rcases h with ((((((rfl | rfl) | rfl) | rfl) | rfl) | rfl) | rfl) | rfl
  all_goals first | rfl | cases hblank

theorem isBlank_of_isStray (h : isStray c = true) : isBlank c = false := by
  simp only [isStray, Bool.or_eq_true, beq_iff_eq] at h
  rcases h with ((rfl | rfl) | rfl) | rfl <;> rfl

/-- The blanks by their numbers. -/
def blankCodes : List Nat :=
  [0x09, 0x0a, 0x0b, 0x0c, 0x0d, 0x20, 0xa0, 0x1680, 0x2000, 0x2001, 0x2002, 0x2003, 0x2004, 0x2005,
    0x2006, 0x2007, 0x2008, 0x2009, 0x200a, 0x2028, 0x2029, 0x202f, 0x205f, 0x3000, 0xfeff]

theorem mem_blankCodes (h : isBlank c = true) : c.toNat ∈ blankCodes := by
  simp only [isBlank, Bool.or_eq_true, Bool.and_eq_true, decide_eq_true_eq, beq_iff_eq] at h
  simp only [blankCodes, List.mem_cons, List.not_mem_nil, or_false]
  omega

/-- No blank, no stray character and no dot is in a word. -/
theorem not_isIdentifierContinue (h : isBlank c = true ∨ isStray c = true ∨ c = '.') :
    isIdentifierContinue c = false := by
  have hcodes : ∀ n ∈ 0x23 :: 0x5c :: 0x2060 :: 0x200b :: 0x2e :: blankCodes,
      isIdentifierContinue (Char.ofNat n) = false := by
    simp only [Text.isIdentifierContinue_eq]
    decide +kernel
  rw [← Char.ofNat_toNat c]
  refine hcodes c.toNat ?_
  rcases h with h | h | rfl
  · simp only [List.mem_cons]
    exact .inr (.inr (.inr (.inr (.inr (mem_blankCodes h)))))
  · simp only [isStray, Bool.or_eq_true, beq_iff_eq] at h
    rcases h with ((rfl | rfl) | rfl) | rfl <;> decide
  · decide

/-! ### Gaps -/

/-- What is skipped in front of a token: separators, or more than these, and then the sign of a comment
or of a joined line is there. -/
def IsGap (gap : List Char) : Prop :=
  '#' ∈ gap ∨ '\\' ∈ gap ∨ ∀ c ∈ gap, isSeparator c = true

theorem isGap_nil : IsGap [] := .inr (.inr (by simp))

theorem IsGap.separators (h : IsGap gap) (htext : ∀ c ∈ text, isSeparator c = true) :
    IsGap (gap ++ text) := by
  rcases h with h | h | h
  · exact .inl (List.mem_append_left _ h)
  · exact .inr (.inl (List.mem_append_left _ h))
  · exact .inr (.inr (List.forall_mem_append.mpr ⟨h, htext⟩))

/-- A comment or a joined line is skipped with its sign. -/
theorem isGap_aside (h : Lexer.aside text ≠ 0) (gap : List Char) :
    IsGap (gap ++ text.take (Lexer.aside text)) := by
  obtain ⟨k, hk⟩ := Nat.exists_eq_succ_of_ne_zero h
  rw [Lexer.aside] at h hk ⊢
  cases text with
  | nil => exact absurd rfl h
  | cons d rest =>
      -- at least one character is skipped, and the first one is the sign
      rw [hk]
      rw [hk] at h
      cases hhash : startsWith '#' (d :: rest) with
      | true =>
          obtain rfl : '#' = d := beq_iff_eq.mp hhash
          exact .inl (List.mem_append_right _ List.mem_cons_self)
      | false =>
          rw [hhash, if_neg Bool.false_ne_true] at hk
          by_cases hslash : d = '\\'
          · subst hslash
            exact .inr (.inl (List.mem_append_right _ List.mem_cons_self))
          · rw [Lexer.joinedLine] at hk <;> simp_all

/-- The blanks that are taken out of a gap are all of it, if nothing stray is left. -/
theorem IsGap.filter_eq_nil (h : IsGap gap)
    (hleft : ∀ c ∈ gap.filter (!isBlank ·), isStray c = false) : gap.filter (!isBlank ·) = [] := by
  have hnot (d : Char) (hd : isStray d = true) : d ∉ gap := fun hmem => by
    have hfalse := hleft d (List.mem_filter.mpr ⟨hmem, by rw [isBlank_of_isStray hd]; rfl⟩)
    rw [hd] at hfalse
    cases hfalse
  rw [List.filter_eq_nil_iff]
  intro d hd hsolid
  rw [Bool.not_eq_true'] at hsolid
  rcases h with h | h | h
  · exact hnot '#' rfl h
  · exact hnot '\\' rfl h
  · exact hnot d (stray_of_isSeparator (h d hd) hsolid) hd

/-! ### Tokens of names -/

/-- Words and dots are written as such, behind a gap. -/
structure Formed (kind : Terminal) (gap text : List Char) : Prop where
  gap : kind.isInNames = true → IsGap gap
  word : kind.isKeyword = true ∨ kind = .identifier → IsWord text
  dot : kind = .dot → text = ['.']

theorem Formed.of_other (h : kind.isInNames = false) (gap text : List Char) :
    Formed kind gap text := by
  refine ⟨fun hin => ?_, fun hword => ?_, fun hdot => ?_⟩
  · rw [h] at hin
    cases hin
  · rcases hword with hkeyword | rfl
    · rw [isKeyword_of_isInNames h] at hkeyword
      cases hkeyword
    · cases h
  · subst hdot
    cases h

theorem Formed.of_word (hkind : kind.isKeyword = true ∨ kind = .identifier) (hgap : IsGap gap)
    (hword : IsWord text) : Formed kind gap text := by
  refine ⟨fun _ => hgap, fun _ => hword, fun hdot => ?_⟩
  subst hdot
  rcases hkind with hkeyword | hkind
  · cases hkeyword
  · cases hkind

namespace Lexer

theorem take_runLength (p : Char → Bool) (text : List Char) :
    text.take (runLength p text) = text.takeWhile p := by
  induction text with
  | nil => rfl
  | cons d text ih =>
      rw [runLength, List.takeWhile_cons]
      split
      · rw [List.take_succ_cons, ih]
      · rfl

theorem isWord_run (hc : isIdentifierStart c = true) (rest : List Char) :
    IsWord ((c :: rest).take (runLength isIdentifierContinue (c :: rest))) := by
  rw [take_runLength]
  refine ⟨fun d hd => List.mem_takeWhile_imp hd, c, ?_, hc⟩
  rw [List.takeWhile_cons, if_pos (Text.isIdentifierContinue_of_isIdentifierStart hc)]
  rfl

theorem word_formed (hgap : IsGap gap) (hc : isIdentifierStart c = true) (rest : List Char) :
    Formed (word valid (c :: rest)).1 gap ((c :: rest).take (word valid (c :: rest)).2) := by
  have hkeywords : ∀ entry ∈ Terminal.keywords, entry.2.isKeyword = true := by decide
  have hrun := isWord_run hc rest
  rw [word]
  split
  · rename_i t hlookup
    split
    · -- `except` with a star behind it is no part of a name
      exact .of_other rfl _ _
    · split
      · obtain ⟨before, after, hsplit, -⟩ := List.lookup_eq_some_iff.mp hlookup
        have hkeyword := hkeywords (_, t) (hsplit ▸ List.mem_append_right _ List.mem_cons_self)
        exact .of_word (.inl hkeyword) hgap hrun
      · exact .of_word (.inr rfl) hgap hrun
  · exact .of_word (.inr rfl) hgap hrun

theorem sign_formed {length : Nat} (hgap : IsGap gap) (h : sign valid text = some (kind, length)) :
    Formed kind gap (text.take length) := by
  have hsigns : ∀ s ∈ Terminal.signs, s.2.isInNames = true → s = (['.'], .dot) := by decide
  obtain ⟨⟨spelling, t⟩, hs, heq⟩ := Option.map_eq_some_iff.mp h
  obtain ⟨rfl, rfl⟩ := Prod.mk.inj heq
  cases hin : t.isInNames with
  | false => exact .of_other hin _ _
  | true =>
      -- the dot is the only sign in names
      have hfits := List.find?_some hs
      simp only [Bool.and_eq_true, List.isPrefixOf_iff_prefix, List.prefix_iff_eq_take] at hfits
      obtain ⟨rfl, rfl⟩ := Prod.mk.inj (hsigns (spelling, t) (List.mem_of_find?_eq_some hs) hin)
      refine ⟨fun _ => hgap, fun hword => ?_, fun _ => hfits.2.symm⟩
      rcases hword with hword | hword <;> cases hword

theorem plain_formed {length : Nat} (hgap : IsGap gap) (h : plain valid text = some (kind, length)) :
    Formed kind gap (text.take length) := by
  cases text with
  | nil =>
      cases h
      exact .of_other rfl _ _
  | cons c rest =>
      rw [plain] at h
      split at h
      · rename_i hc
        have hword := @word_formed valid c gap hgap hc rest
        rw [Option.some.inj h] at hword
        exact hword
      · rcases ite_eq_iff.mp h with ⟨-, h⟩ | ⟨-, h⟩
        · cases h; exact .of_other rfl _ _
        rcases ite_eq_iff.mp h with ⟨-, h⟩ | ⟨-, h⟩
        · cases h; exact .of_other rfl _ _
        rcases ite_eq_iff.mp h with ⟨-, h⟩ | ⟨-, h⟩
        · cases h; exact .of_other rfl _ _
        exact sign_formed hgap h

/-- The token behind what was skipped so far, in a text that is given from its beginning on. -/
theorem readFrom_formed {source : List Char} {start : Bool} {fuel skipped : Nat} {r : Reading}
    (hgap : IsGap (source.take skipped))
    (h : readFrom valid layout start fuel skipped (source.drop skipped) = some r) :
    Formed r.kind (source.take r.gap) ((source.drop r.gap).take r.length) := by
  induction fuel generalizing start skipped with
  | zero => cases h
  | succ fuel ih =>
      rw [readFrom] at h
      simp only at h
      split at h
      · rename_i found hfound
        cases h
        exact .of_other (Layout.read?_other hfound) _ _
      · split at h
        · rename_i hinside
          cases h
          exact .of_other (insideString_other hinside) _ _
        · rw [← aside] at h
          -- the separators that are skipped in this round, then the comment or the joined line
          generalize hblanks : runLength isSeparator (source.drop skipped) = blanks at h
          have hgap' : IsGap (source.take (skipped + blanks)) := by
            rw [List.take_add, ← hblanks, take_runLength]
            exact hgap.separators fun d hd => List.mem_takeWhile_imp hd
          rw [List.drop_drop] at h
          rcases ite_eq_iff.mp h with ⟨haside, h⟩ | ⟨-, h⟩
          · rw [List.drop_drop] at h
            refine ih ?_ h
            rw [List.take_add]
            exact isGap_aside (bne_iff_ne.mp haside) _
          · obtain ⟨⟨kind, length⟩, hplain, rfl⟩ := Option.map_eq_some_iff.mp h
            exact plain_formed hgap' hplain

theorem read?_formed {start : Bool} {r : Reading}
    (h : Lexer.read? valid layout start text = some r) :
    Formed r.kind (text.take r.gap) ((text.drop r.gap).take r.length) :=
  @readFrom_formed valid layout text start (text.length + 1) 0 r isGap_nil h

end Lexer

/-! ### Trees -/

def Token.Formed (token : Token) : Prop := Python.Formed token.kind token.gap token.text

/-- A keyword that is taken for an identifier is a word all the same. -/
theorem Formed.identifier (h : Formed kind gap text) (hkind : kind.isKeyword = true) :
    Formed .identifier gap text :=
  .of_word (.inr rfl) (h.gap (by rw [Terminal.isInNames, hkind]; rfl)) (h.word (.inl hkind))

theorem Reader.advance_formed {r q : Reader} (h : Stack.Derived r.stack)
    (hformed : ∀ token ∈ Stack.leaves r.stack, token.Formed) (hq : q ∈ r.advance) :
    ∀ token ∈ Stack.leaves q.stack, token.Formed := by
  rw [advance] at hq
  split at hq
  · cases hq
  · rename_i found hfound
    obtain ⟨stack, hstack, rfl⟩ := List.mem_map.mp hq
    obtain ⟨-, kind, hkind, hleaves⟩ := Stack.read_derived h hstack
    have hread := Lexer.read?_formed hfound
    intro token htoken
    rw [hleaves] at htoken
    rcases List.mem_append.mp htoken with htoken | htoken
    · exact hformed token htoken
    · -- the token that was read now, perhaps as an identifier
      cases List.mem_singleton.mp htoken
      rcases hkind with rfl | ⟨hkeyword, rfl⟩
      · exact hread
      · exact hread.identifier hkeyword

/-- The words and dots in the trees of a text are written as such. -/
theorem parse?_formed {source : List Char} {trees : List Tree} (h : parse? source = some trees) :
    ∀ token ∈ trees.flatMap Tree.leaves, token.Formed := by
  have hstep (r q : Reader)
      (hr : r.Follows source ∧ ∀ token ∈ Stack.leaves r.stack, token.Formed) (hq : q ∈ r.advance) :
      q.Follows source ∧ ∀ token ∈ Stack.leaves q.stack, token.Formed :=
    ⟨hr.1.advance hq, Reader.advance_formed hr.1.derived hr.2 hq⟩
  have hstart : ∀ r ∈ [Reader.initial source],
      r.Follows source ∧ ∀ token ∈ Stack.leaves r.stack, token.Formed := by
    intro r hr
    cases List.mem_singleton.mp hr
    refine ⟨Reader.follows_initial source, fun token htoken => ?_⟩
    cases htoken
  obtain ⟨r, ⟨-, hformed⟩, hends⟩ := Reader.run_induction hstep hstart h
  obtain ⟨⟨ending, hleaves⟩, -⟩ := Reader.of_finished? hends
  intro token htoken
  exact hformed token (hleaves ▸ List.mem_append_left _ htoken)

end ScriptPack.Python

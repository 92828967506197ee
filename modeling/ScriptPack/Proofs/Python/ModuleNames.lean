import ScriptPack.Proofs.Python.Gaps
import ScriptPack.Proofs.Python.ImportLines

/-!
What imported modules are called. Of what stands between the tokens of a dotted name only the blanks
are taken out: a module is made of words with dots between them exactly if no character of the rest
is left in it (`importsOf_isDotted`), as is always so where lines are scanned
(`LinePatterns.scanLines_isDotted`).
-/

namespace ScriptPack.Python

open Text (isBlank isNameStart isNamePart)
open Lexer (IsWord)

variable {c : Char} {text : List Char}

/-! ### Dotted names in trees -/

/-- More names of a dotted name: identifiers, each behind a dot. -/
inductive MoreNames : List Token → Prop
  | nil : MoreNames []
  | cons {dot name : Token} {rest : List Token} (hdot : dot.kind = .dot)
      (hname : name.kind = .identifier) (hrest : MoreNames rest) : MoreNames (dot :: name :: rest)

theorem MoreNames.append {tokens tokens' : List Token} (h : MoreNames tokens)
    (h' : MoreNames tokens') : MoreNames (tokens ++ tokens') := by
  induction h with
  | nil => exact h'
  | cons hdot hname _ ih => exact .cons hdot hname ih

namespace Tree

open Grammar

variable {trees parts : List Tree} {tree : Tree}

theorem moreNames_pair (h : trees.map (·.symbol) = [.terminal .dot, .terminal .identifier]) :
    MoreNames (trees.flatMap leaves) := by
  obtain ⟨tree, rest, rfl, htree, hrest⟩ := List.map_eq_cons_iff.mp h
  obtain ⟨tree', rest, rfl, htree', hnil⟩ := List.map_eq_cons_iff.mp hrest
  obtain ⟨dot, hdot, rfl⟩ := eq_leaf_of_symbol htree
  obtain ⟨name, hname, rfl⟩ := eq_leaf_of_symbol htree'
  rw [List.map_eq_nil_iff.mp hnil]
  exact .cons hdot hname .nil

/-- Trees that make up more names. The repetition may be a part itself, or be added to. -/
theorem moreNames_of_derives {word : List Symbol} (h : Derives .moreNameParts word)
    (hword : trees.map (·.symbol) = word)
    (heach : ∀ tree ∈ trees, tree.symbol = .nonterminal .moreNameParts → MoreNames tree.leaves) :
    MoreNames (trees.flatMap leaves) := by
  have hrule : ∀ steps ∈ rule .moreNameParts,
      steps.map (·.symbol) = [.terminal .dot, .terminal .identifier] ∨
      steps.map (·.symbol) =
        [.nonterminal .moreNameParts, .terminal .dot, .terminal .identifier] := by decide
  -- A repetition adds a dot and an identifier to the end of a word.
  induction h generalizing trees with
  | alternative hsteps =>
      rcases hrule _ hsteps with hpair | hlong
      · exact moreNames_pair (hword.trans hpair)
      · obtain ⟨tree, rest, rfl, htree, hrest⟩ := List.map_eq_cons_iff.mp (hword.trans hlong)
        rw [List.flatMap_cons]
        exact (heach tree List.mem_cons_self htree).append (moreNames_pair hrest)
  | again hfront hsteps hstep ih =>
      obtain ⟨front, back, rfl, hfront', hback⟩ := List.map_eq_append_iff.mp hword
      rw [List.flatMap_append]
      refine (ih hfront' fun tree htree => heach tree (List.mem_append_left _ htree)).append
        (moreNames_pair ?_)
      rw [hback]
      rcases hrule _ hsteps with hpair | hlong
      · rw [List.map_cons, hstep] at hpair
        cases hpair
      · exact (List.cons.inj hlong).2

theorem Derived.moreNames (h : tree.Derived) (hsymbol : tree.symbol = .nonterminal .moreNameParts) :
    MoreNames tree.leaves := by
  induction h with
  | leaf token => cases hsymbol
  | @node head parts hword hparts ih =>
      cases hsymbol
      rw [leaves_node]
      exact moreNames_of_derives hword rfl fun part hpart =>
        ih part (List.mem_reverse.mp hpart)

/-- The tokens of a dotted name. -/
theorem Derived.dottedName (h : (Tree.node .dottedName parts).Derived) :
    ∃ name rest, leaves (Tree.node .dottedName parts) = name :: rest ∧ name.kind = .identifier ∧
      MoreNames rest := by
  have hrule : ∀ steps ∈ rule .dottedName,
      steps.map (·.symbol) = [.terminal .identifier, .nonterminal .moreNameParts] ∨
      steps.map (·.symbol) = [.terminal .identifier] := by decide
  have hplain : ∀ steps ∈ rule .dottedName, ∀ step ∈ steps,
      step.symbol ≠ .nonterminal .dottedName := by decide
  rw [leaves_node]
  cases h with
  | node hword hparts =>
      have heach : ∀ part ∈ parts.reverse, part.symbol = .nonterminal .moreNameParts →
          MoreNames part.leaves := fun part hpart =>
        (hparts part (List.mem_reverse.mp hpart)).moreNames
      generalize hsymbols : parts.reverse.map (·.symbol) = word at hword
      generalize parts.reverse = trees at heach hsymbols ⊢
      cases hword with
      | again _ hsteps hstep => exact absurd hstep (hplain _ hsteps _ List.mem_cons_self)
      | alternative hsteps =>
          rcases hrule _ hsteps with hrest | hrest <;> rw [hrest] at hsymbols
          · obtain ⟨tree, rest, rfl, htree, hrest⟩ := List.map_eq_cons_iff.mp hsymbols
            obtain ⟨more, none, rfl, hmore, hnil⟩ := List.map_eq_cons_iff.mp hrest
            obtain ⟨name, hname, rfl⟩ := eq_leaf_of_symbol htree
            rw [List.map_eq_nil_iff.mp hnil] at heach ⊢
            refine ⟨name, more.leaves, ?_, hname, heach more (by simp) hmore⟩
            rw [List.flatMap_cons, List.flatMap_singleton]
            rfl
          · obtain ⟨tree, none, rfl, htree, hnil⟩ := List.map_eq_cons_iff.mp hsymbols
            obtain ⟨name, hname, rfl⟩ := eq_leaf_of_symbol htree
            rw [List.map_eq_nil_iff.mp hnil]
            exact ⟨name, [], rfl, hname, .nil⟩

theorem leaves_subset {part : Tree} (hpart : part ∈ parts) (head : Nonterminal) :
    part.leaves ⊆ leaves (node head parts) := by
  rw [leaves_node]
  exact fun token htoken => List.mem_flatMap_of_mem (List.mem_reverse.mpr hpart) htoken

theorem mem_parts {head : Nonterminal} {first second : Tree}
    (h : (node head parts).children = first :: second :: trees) : second ∈ parts := by
  rw [← List.mem_reverse, show parts.reverse = _ from h]
  exact List.mem_cons_of_mem _ List.mem_cons_self

/-- Each dotted name in a tree is a part of it. -/
theorem Derived.of_mem_names {name : Tree} (h : tree.Derived) (hname : name ∈ names tree) :
    ∃ parts, name = Tree.node .dottedName parts ∧ name.Derived ∧ name.leaves ⊆ tree.leaves := by
  induction h with
  | leaf token => cases hname
  | @node head parts hword hparts ih =>
      by_cases hhead : head = .dottedName
      · subst hhead
        cases List.mem_singleton.mp hname
        exact ⟨parts, rfl, .node hword hparts, List.Subset.refl _⟩
      · rw [names_node hhead] at hname
        obtain ⟨part, hpart, hname⟩ := List.mem_flatMap.mp hname
        rw [List.mem_reverse] at hpart
        obtain ⟨parts', heq, hderived, hsub⟩ := ih part hpart hname
        exact ⟨parts', heq, hderived, List.Subset.trans hsub (leaves_subset hpart head)⟩

/-- The module of an import is a dotted name in its tree. -/
theorem Derived.of_mem_imports {item : Import} (h : tree.Derived) (hitem : item ∈ tree.imports) :
    ∃ parts, item.module = dottedText (Tree.node .dottedName parts) ∧
      (Tree.node .dottedName parts).Derived ∧
      leaves (Tree.node .dottedName parts) ⊆ tree.leaves := by
  induction h with
  | leaf token => cases hitem
  | @node head parts hword hparts ih =>
      cases hholds : holdsStatements head with
      | true =>
          rw [imports_node hholds] at hitem
          obtain ⟨part, hpart, hitem⟩ := List.mem_flatMap.mp hitem
          rw [List.mem_reverse] at hpart
          obtain ⟨parts', hmodule, hderived, hsub⟩ := ih part hpart hitem
          exact ⟨parts', hmodule, hderived, List.Subset.trans hsub (leaves_subset hpart head)⟩
      | false =>
          rw [imports_statement hholds] at hitem
          unfold statementImports at hitem
          split at hitem
          · -- an `import` statement, with its list as second part
            rename_i first items rest hchildren
            obtain ⟨name, hname, rfl⟩ := List.mem_map.mp hitem
            have hpart : items ∈ parts := mem_parts hchildren
            obtain ⟨parts', rfl, hderived, hsub⟩ := (hparts items hpart).of_mem_names hname
            exact ⟨parts', rfl, hderived, List.Subset.trans hsub (leaves_subset hpart _)⟩
          · -- a `from` statement, with its module as second part
            rename_i first parts' rest hchildren
            cases List.mem_singleton.mp hitem
            have hpart : Tree.node .dottedName parts' ∈ parts := mem_parts hchildren
            exact ⟨parts', rfl, hparts _ hpart, leaves_subset hpart _⟩
          · cases hitem

end Tree

/-! ### Dotted names -/

/-- One or more words with dots between them. -/
inductive IsDotted : List Char → Prop
  | word {name : List Char} (hname : IsWord name) : IsDotted name
  | cons {name rest : List Char} (hname : IsWord name) (hrest : IsDotted rest) :
      IsDotted (name ++ '.' :: rest)

theorem not_mem_of_isWord (h : IsWord text) (hc : isBlank c = true ∨ isStray c = true ∨ c = '.') :
    c ∉ text := fun hmem => by
  have hpart := h.parts c hmem
  rw [not_isIdentifierContinue hc] at hpart
  cases hpart

theorem not_stray_of_isWord (h : IsWord text) : ∀ c ∈ text, isStray c = false := fun _ hc =>
  Bool.eq_false_iff.mpr fun hstray => not_mem_of_isWord h (.inr (.inl hstray)) hc

theorem filter_word (h : IsWord text) : text.filter (!isBlank ·) = text := by
  rw [List.filter_eq_self]
  intro c hc
  rw [Bool.not_eq_true', Bool.eq_false_iff]
  exact fun hblank => not_mem_of_isWord h (.inl hblank) hc

theorem IsDotted.not_stray (h : IsDotted text) : ∀ c ∈ text, isStray c = false := by
  induction h with
  | word hname => exact not_stray_of_isWord hname
  | cons hname _ ih =>
      rw [List.forall_mem_append, List.forall_mem_cons]
      exact ⟨not_stray_of_isWord hname, rfl, ih⟩

/-- The first of the names is the top-level one. -/
theorem IsDotted.topLevelName (h : IsDotted text) :
    IsWord (topLevelName (String.ofList text)).toList := by
  have hdot {name : List Char} (hname : IsWord name) : ∀ c ∈ name, (c != '.') = true := by
    intro c hc
    rw [bne_iff_ne]
    rintro rfl
    exact not_mem_of_isWord hname (.inr (.inr rfl)) hc
  rw [Python.topLevelName, String.toList_ofList, String.toList_ofList]
  cases h with
  | word hname => rwa [List.takeWhile_eq_self_iff.mpr (hdot hname)]
  | cons hname hrest =>
      rw [List.takeWhile_append_of_pos (hdot hname), List.takeWhile_cons_of_neg (by decide),
        List.append_nil]
      exact hname

/-- Without the blanks, names follow each other with a dot in front of each, if nothing stray is left. -/
theorem MoreNames.isDotted {tokens : List Token} (h : MoreNames tokens)
    (hformed : ∀ token ∈ tokens, token.Formed)
    (hleft : ∀ c ∈ (spelled tokens).filter (!isBlank ·), isStray c = false) (hname : IsWord text) :
    IsDotted (text ++ (spelled tokens).filter (!isBlank ·)) := by
  induction h generalizing text with
  | nil =>
      rw [show spelled [] = [] from rfl, List.filter_nil, List.append_nil]
      exact .word hname
  | @cons dot name rest hdot hkind _ ih =>
      rw [List.forall_mem_cons, List.forall_mem_cons] at hformed
      obtain ⟨hformedDot, hformedName, hformedRest⟩ := hformed
      have hword := hformedName.word (.inr hkind)
      simp only [spelled_cons, List.filter_append, List.forall_mem_append] at hleft ⊢
      obtain ⟨⟨hgapDot, -⟩, ⟨hgapName, -⟩, hleftRest⟩ := hleft
      -- both gaps are gone, so that the dot stands between two words
      rw [(hformedDot.gap (by rw [hdot]; rfl)).filter_eq_nil hgapDot,
        (hformedName.gap (by rw [hkind]; rfl)).filter_eq_nil hgapName, filter_word hword,
        hformedDot.dot hdot]
      exact .cons hname (ih hformedRest hleftRest hword)

theorem dottedText_isDotted {parts : List Tree} (h : (Tree.node .dottedName parts).Derived)
    (hformed : ∀ token ∈ (Tree.node .dottedName parts).leaves, token.Formed)
    (hleft : ∀ c ∈ (dottedText (.node .dottedName parts)).toList, isStray c = false) :
    IsDotted (dottedText (.node .dottedName parts)).toList := by
  obtain ⟨name, rest, hleaves, hkind, hmore⟩ := h.dottedName
  rw [hleaves, List.forall_mem_cons] at hformed
  have hword := hformed.1.word (.inr hkind)
  have htext : (dottedText (.node .dottedName parts)).toList =
      name.text ++ (spelled rest).filter (!isBlank ·) := by
    rw [dottedText, String.toList_ofList, Tree.text, hleaves]
    simp only [List.filter_append, filter_word hword]
    rfl
  rw [htext, List.forall_mem_append] at hleft
  rw [htext]
  exact hmore.isDotted hformed.2 hleft.2 hword

-- The backslash of a joined line stays in the name.
example : dottedText (.node .dottedName [
      .node .moreNameParts [.leaf ⟨.identifier, [], "path".toList, 1⟩,
        .leaf ⟨.dot, "\\\n".toList, ['.'], 1⟩],
      .leaf ⟨.identifier, [' '], "os".toList, 0⟩]) = "os\\.path" := by
  decide +kernel

/-! ### Names in lines -/

namespace LinePatterns

variable {module rest line : List Char} {item : Import} {number : Nat}

theorem isWord_of_isNameStart (hc : isNameStart c = true) (rest : List Char) :
    IsWord (c :: rest.takeWhile isNamePart) := by
  refine Lexer.isWord_of_isName ?_
  rw [Text.isName, hc, List.all_takeWhile]
  rfl

/-- What is found at the front of a text is made of words with dots between them. -/
theorem dottedPrefix?_sound (text : List Char) :
    ∀ found ∈ dottedPrefix? text, text = found.1 ++ found.2 ∧ IsDotted found.1 := by
  fun_induction dottedPrefix? text with
  | case1 => simp
  | case2 d ahead hd name behind hbehind hlt more after hmore ih =>
      intro found hfound
      cases Option.mem_some_iff.mp hfound
      obtain ⟨hbehind', hdotted⟩ := ih (more, after) hmore
      refine ⟨?_, .cons (isWord_of_isNameStart hd ahead) hdotted⟩
      show d :: ahead = d :: ahead.takeWhile isNamePart ++ '.' :: more ++ after
      rw [List.append_assoc, List.cons_append, List.cons_append, ← hbehind', ← hbehind,
        List.takeWhile_append_dropWhile]
  | case3 d ahead hd name behind hbehind hlt hnone ih =>
      intro found hfound
      cases Option.mem_some_iff.mp hfound
      refine ⟨?_, .word (isWord_of_isNameStart hd ahead)⟩
      rw [← hbehind, List.cons_append, List.takeWhile_append_dropWhile]
  | case4 d ahead hd name hno =>
      intro found hfound
      cases Option.mem_some_iff.mp hfound
      refine ⟨?_, .word (isWord_of_isNameStart hd ahead)⟩
      rw [List.cons_append, List.takeWhile_append_dropWhile]
  | case5 d ahead hd => simp

theorem isDotted_sound (h : isDotted text = true) : IsDotted text := by
  rw [isDotted] at h
  split at h
  · rename_i module hprefix
    obtain ⟨htext, hdotted⟩ := dottedPrefix?_sound text (module, []) hprefix
    rwa [htext, List.append_nil]
  · cases h

theorem fromModule?_sound (h : fromModule? line = some module) : IsDotted module := by
  obtain ⟨behindWord, -, h⟩ := Option.bind_eq_some_iff.mp h
  obtain ⟨behindFrom, -, h⟩ := Option.bind_eq_some_iff.mp h
  obtain ⟨found, hprefix, h⟩ := Option.bind_eq_some_iff.mp h
  obtain ⟨behindModule, -, h⟩ := Option.bind_eq_some_iff.mp h
  obtain ⟨behindImport, -, h⟩ := Option.bind_eq_some_iff.mp h
  have hmodule : found.1 = module := by
    split at h
    · exact Option.some.inj h
    · rcases ite_eq_iff.mp h with ⟨-, h⟩ | ⟨-, h⟩
      · cases h
      · exact Option.some.inj h
  exact hmodule ▸ (dottedPrefix?_sound behindFrom found hprefix).2

theorem itemModule?_sound (h : itemModule? text = some module) : IsDotted module := by
  rw [itemModule?] at h
  rcases ite_eq_iff.mp h with ⟨hdotted, h⟩ | ⟨-, h⟩
  · cases h
    exact isDotted_sound (Bool.and_eq_true_iff.mp hdotted).1
  · cases h

/-- The lines give names that are made of words with dots between them, whatever they hold. -/
theorem scanLines_isDotted {source : List Char} (h : item ∈ scanLines source) :
    IsDotted item.module.toList := by
  obtain ⟨⟨line, i⟩, -, h⟩ := List.mem_flatMap.mp h
  simp only [lineImports_eq] at h
  split at h
  · rename_i module hmodule
    split at h
    · cases h
    · cases List.mem_singleton.mp h
      rw [String.toList_ofList]
      exact fromModule?_sound hmodule
  · cases hitems : importItems? line with
    | none =>
        rw [hitems] at h
        cases h
    | some items =>
        rw [hitems] at h
        obtain ⟨part, -, hpart⟩ := List.mem_filterMap.mp h
        obtain ⟨module, hmodule, rfl⟩ := Option.map_eq_some_iff.mp hpart
        rw [String.toList_ofList]
        exact itemModule?_sound hmodule

end LinePatterns

/-! ### Modules -/

/-- A module that is reported is made of words with dots between them, unless it is read off a syntax tree
and there is a comment, a joined line or a separator without width inside the name: of these the
signs are left in it. -/
theorem importsOf_isDotted (source : List Char) : ∀ item ∈ (importsOf source).imports,
    (IsDotted item.module.toList ↔ ∀ c ∈ item.module.toList, isStray c = false) := by
  intro item hitem
  refine ⟨IsDotted.not_stray, fun hleft => ?_⟩
  rw [importsOf] at hitem
  split at hitem
  · rename_i trees htrees
    rw [Tree.importsOfReversed_eq, List.reverse_reverse, List.append_nil] at hitem
    obtain ⟨tree, htree, hitem⟩ := List.mem_flatMap.mp hitem
    obtain ⟨parts, hmodule, hderived, hsub⟩ :=
      ((parse?_sound htrees).derived tree htree).of_mem_imports hitem
    rw [hmodule] at hleft ⊢
    refine dottedText_isDotted hderived (fun token htoken => ?_) hleft
    exact parse?_formed htrees token (List.mem_flatMap_of_mem htree (hsub htoken))
  · exact LinePatterns.scanLines_isDotted hitem

end ScriptPack.Python

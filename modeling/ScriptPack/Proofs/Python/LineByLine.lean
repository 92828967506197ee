import ScriptPack.Proofs.Path
import ScriptPack.Proofs.Python.ImportFile
import ScriptPack.Python.LinePatterns

/-!
The line patterns look at one line at a time. A blank at the end of a line changes nothing in what the
line imports (`lineImports_padded`), so that it does not matter whether a carriage return in front of a
line feed is counted to the line (`scanLines_eq_parts`). A scan is then put together from the scans of
the parts of a text, and line ends of one kind may be written for those of the other.
-/

namespace ScriptPack.Python

/-- The same import some rows further down. -/
def Import.down (rows : Nat) (item : Import) : Import := { item with line := item.line + rows }

namespace LinePatterns

open Text (isBlank dropBlanks trim parts after? isNameStart isNamePart)

/-- A text as it is, or with one more character at its end. -/
inductive Padded (c : Char) (text : List Char) : List Char → Prop
  | same : Padded c text text
  | concat : Padded c text (text ++ [c])

variable {c : Char} {text padded word : List Char}

theorem Padded.cons (h : Padded c text padded) (d : Char) : Padded c (d :: text) (d :: padded) := by
  cases h with
  | same => exact .same
  | concat => exact .concat

/-! ### Taking a padded text apart -/

theorem ne_of_isBlank {d : Char} (hc : isBlank c = true) (hd : isBlank d = false) : c ≠ d := by
  rintro rfl
  rw [hc] at hd
  cases hd

theorem not_isNamePart_of_isBlank (hc : isBlank c = true) : isNamePart c = false := by
  cases hpart : isNamePart c with
  | false => rfl
  | true => exact absurd rfl (ne_of_isBlank hc (ImportFile.not_isBlank_of_isNamePart hpart))

theorem takeWhile_concat {p : Char → Bool} (hp : p c = false) (text : List Char) :
    (text ++ [c]).takeWhile p = text.takeWhile p := by
  induction text with
  | nil => simp [hp]
  | cons d text ih => simp [List.takeWhile_cons, ih]

theorem dropWhile_concat {p : Char → Bool} (hp : p c = false) (text : List Char) :
    (text ++ [c]).dropWhile p = text.dropWhile p ++ [c] := by
  induction text with
  | nil => simp [hp]
  | cons d text ih =>
      rw [List.cons_append, List.dropWhile_cons, List.dropWhile_cons, ih]
      split <;> rfl

theorem Padded.takeWhile (h : Padded c text padded) (p : Char → Bool) :
    Padded c (text.takeWhile p) (padded.takeWhile p) := by
  cases h with
  | same => exact .same
  | concat =>
      induction text with
      | nil =>
          cases hp : p c with
          | false => simpa [hp] using Padded.same
          | true => simpa [hp] using @Padded.concat c []
      | cons d text ih =>
          rw [List.cons_append, List.takeWhile_cons, List.takeWhile_cons]
          split
          · exact ih.cons d
          · exact .same

theorem Padded.dropBlanks (hc : isBlank c = true) (h : Padded c text padded) :
    Padded c (dropBlanks text) (dropBlanks padded) := by
  cases h with
  | same => exact .same
  | concat =>
      rw [Text.dropBlanks, Text.dropBlanks, List.dropWhile_append]
      split
      · rename_i hempty
        rw [List.isEmpty_iff.mp hempty, List.dropWhile_cons_of_pos hc]
        exact .same
      · exact .concat

/-- A word that does not hold the last character is found in both texts or in neither. -/
theorem Padded.after? (h : Padded c text padded) (hword : c ∉ word) :
    Option.Rel (Padded c) (after? word text) (after? word padded) := by
  cases h with
  | same =>
      cases Text.after? word text with
      | none => exact .none
      | some rest => exact .some .same
  | concat =>
      rw [Text.after?, Text.after?]
      by_cases hbegins : word <+: text
      · rw [if_pos (List.isPrefixOf_iff_prefix.mpr hbegins),
          if_pos (List.isPrefixOf_iff_prefix.mpr (hbegins.trans (List.prefix_append text [c]))),
          List.drop_append_of_le_length hbegins.length_le]
        exact .some .concat
      · have hlonger : ¬word <+: text ++ [c] := by
          rw [List.prefix_concat_iff]
          rintro (rfl | hbegins')
          · exact hword (List.mem_append_right text List.mem_cons_self)
          · exact hbegins hbegins'
        rw [if_neg (mt List.isPrefixOf_iff_prefix.mp hbegins),
          if_neg (mt List.isPrefixOf_iff_prefix.mp hlonger)]
        exact .none

/-- Blanks that are found in the padded text only are all of it. -/
theorem Padded.afterBlanks? (hc : isBlank c = true) (h : Padded c text padded) :
    Option.Rel (Padded c) (afterBlanks? text) (afterBlanks? padded) ∨
      afterBlanks? text = none ∧ afterBlanks? padded = some [] := by
  cases h with
  | same =>
      left
      cases LinePatterns.afterBlanks? text with
      | none => exact .none
      | some rest => exact .some .same
  | concat =>
      cases text with
      | nil => exact .inr ⟨rfl, if_pos hc⟩
      | cons d text =>
          left
          rw [List.cons_append, LinePatterns.afterBlanks?, LinePatterns.afterBlanks?]
          split
          · exact .some (Padded.concat.dropBlanks hc)
          · exact .none

theorem dottedPrefix?_of_dot {d : Char} {rest behind : List Char} (hd : isNameStart d = true)
    (hdrop : rest.dropWhile isNamePart = '.' :: behind) :
    dottedPrefix? (d :: rest) =
      match dottedPrefix? behind with
      | some (more, after) => some (d :: rest.takeWhile isNamePart ++ '.' :: more, after)
      | none => some (d :: rest.takeWhile isNamePart, '.' :: behind) := by
  rw [dottedPrefix?, if_pos hd]
  split
  · rename_i behind' hdrop'
    rw [hdrop] at hdrop'
    cases hdrop'
    rfl
  · rename_i hno
    exact absurd hdrop (hno behind)

theorem dottedPrefix?_of_end {d : Char} {rest : List Char} (hd : isNameStart d = true)
    (hno : ∀ behind, rest.dropWhile isNamePart ≠ '.' :: behind) :
    dottedPrefix? (d :: rest) =
      some (d :: rest.takeWhile isNamePart, rest.dropWhile isNamePart) := by
  rw [dottedPrefix?, if_pos hd]
  split
  · rename_i behind hdrop
    exact absurd hdrop (hno behind)
  · rfl

theorem dottedPrefix?_concat (hc : isBlank c = true) (text : List Char) :
    dottedPrefix? (text ++ [c]) = (dottedPrefix? text).map fun found => (found.1, found.2 ++ [c]) := by
  have hpart := not_isNamePart_of_isBlank hc
  have hdot : c ≠ '.' := ne_of_isBlank hc (by decide)
  have hstart : isNameStart c = false := by
    cases hstart : isNameStart c with
    | false => rfl
    | true => rw [isNamePart_of_isNameStart hstart] at hpart; cases hpart
  have htake := takeWhile_concat hpart
  have hdrop := dropWhile_concat hpart
  -- The blank ends the last name, so that in each case it stays in what is left over.
  fun_induction dottedPrefix? text with
  | case1 => rw [List.nil_append, dottedPrefix?, hstart]; rfl
  | case2 d rest hd name behind hbehind hlt more after hmore ih =>
      have hbehind' : (rest ++ [c]).dropWhile isNamePart = '.' :: (behind ++ [c]) := by
        rw [hdrop, hbehind, List.cons_append]
      rw [List.cons_append, dottedPrefix?_of_dot hd hbehind', ih, hmore, htake]
      rfl
  | case3 d rest hd name behind hbehind hlt hnone ih =>
      have hbehind' : (rest ++ [c]).dropWhile isNamePart = '.' :: (behind ++ [c]) := by
        rw [hdrop, hbehind, List.cons_append]
      rw [List.cons_append, dottedPrefix?_of_dot hd hbehind', ih, hnone, htake]
      rfl
  | case4 d rest hd name hno =>
      have hno' : ∀ behind, (rest ++ [c]).dropWhile isNamePart ≠ '.' :: behind := by
        intro behind
        rw [hdrop]
        cases hrest : rest.dropWhile isNamePart with
        | nil => exact fun h => hdot (List.cons.inj h).1
        | cons e more => exact fun h => hno more (by rw [hrest, (List.cons.inj h).1])
      rw [List.cons_append, dottedPrefix?_of_end hd hno', htake, hdrop]
      rfl
  | case5 d rest hd => rw [List.cons_append, dottedPrefix?, if_neg hd]; rfl

/-! ### The imports of a padded line -/

theorem trim_concat (hc : isBlank c = true) (text : List Char) : trim (text ++ [c]) = trim text := by
  have hpadded := (@Padded.concat c text).dropBlanks hc
  rw [trim, trim]
  revert hpadded
  generalize dropBlanks text = front
  generalize dropBlanks (text ++ [c]) = front'
  intro hpadded
  cases hpadded with
  | same => rfl
  | concat => rw [List.reverse_append, List.reverse_singleton, List.singleton_append, dropBlanks,
      List.dropWhile_cons_of_pos hc, dropBlanks]

theorem itemModule?_padded (hc : isBlank c = true) (h : Padded c text padded) :
    itemModule? padded = itemModule? text := by
  cases h with
  | same => rfl
  | concat => rw [itemModule?, itemModule?, trim_concat hc]

/-- The same character in front of two texts goes to the first part of each. -/
theorem forall₂_parts_cons {separator : Char} {other : List Char} (d : Char)
    (h : List.Forall₂ (Padded c) (parts separator text) (parts separator other)) :
    List.Forall₂ (Padded c) (parts separator (d :: text)) (parts separator (d :: other)) := by
  rw [Text.parts, Text.parts]
  generalize parts separator text = all at h ⊢
  generalize parts separator other = all' at h ⊢
  cases h with
  | nil => exact .cons .same .nil
  | cons hfirst hothers =>
      simp only
      split
      · exact .cons .same (.cons hfirst hothers)
      · exact .cons (hfirst.cons d) hothers

theorem Padded.parts {separator : Char} (h : Padded c text padded) (hc : c ≠ separator) :
    List.Forall₂ (Padded c) (parts separator text) (parts separator padded) := by
  cases h with
  | same => exact List.forall₂_same.mpr fun _ _ => .same
  | concat =>
      induction text with
      | nil =>
          rw [List.nil_append, Text.parts_of_not_mem (List.not_mem_nil),
            Text.parts_of_not_mem (by simpa using hc.symm)]
          exact .cons .concat .nil
      | cons d text ih => exact forall₂_parts_cons d ih

/-- What goes on alike with two texts goes on alike behind a word that both begin with. -/
theorem bind_after? {α : Type} {f : List Char → Option α} (h : Padded c text padded)
    (hword : c ∉ word) (hf : ∀ rest rest', Padded c rest rest' → f rest' = f rest) :
    (after? word padded).bind f = (after? word text).bind f := by
  have hrest := h.after? hword
  generalize after? word text = rest? at hrest ⊢
  generalize after? word padded = rest?' at hrest ⊢
  cases hrest with
  | none => rfl
  | some hrest => exact hf _ _ hrest

/-- The same behind blanks, if nothing comes of an empty text. -/
theorem bind_afterBlanks? {α : Type} {f : List Char → Option α} (hc : isBlank c = true)
    (h : Padded c text padded) (hnil : f [] = none)
    (hf : ∀ rest rest', Padded c rest rest' → f rest' = f rest) :
    (afterBlanks? padded).bind f = (afterBlanks? text).bind f := by
  rcases h.afterBlanks? hc with hrest | ⟨hnone, hsome⟩
  · generalize afterBlanks? text = rest? at hrest ⊢
    generalize afterBlanks? padded = rest?' at hrest ⊢
    cases hrest with
    | none => rfl
    | some hrest => exact hf _ _ hrest
  · rw [hnone, hsome]
    exact hnil

theorem not_mem_of_solid (hc : isBlank c = true) (hword : word.all (!isBlank ·)) : c ∉ word :=
  fun hmem => by simpa [hc] using List.all_eq_true.mp hword c hmem

theorem fromModule?_padded (hc : isBlank c = true) (h : Padded c text padded) :
    fromModule? padded = fromModule? text := by
  have hfrom : c ∉ "from".toList := not_mem_of_solid hc (rfl)
  have himport : c ∉ "import".toList := not_mem_of_solid hc (rfl)
  simp only [fromModule?, Option.bind_eq_bind]
  refine bind_after? (h.dropBlanks hc) hfrom fun behind behind' hbehind => ?_
  refine bind_afterBlanks? hc hbehind (by rw [dottedPrefix?]; rfl) fun front front' hfront => ?_
  cases hfront with
  | same => rfl
  | concat =>
      rw [dottedPrefix?_concat hc]
      cases dottedPrefix? front with
      | none => rfl
      | some found =>
          simp only [Option.map_some, Option.bind_some]
          refine bind_afterBlanks? hc .concat rfl fun rest rest' hrest => ?_
          refine bind_after? hrest himport fun tail tail' htail => ?_
          -- Behind `import` a line may end, and it may go on with a blank.
          cases htail with
          | same => rfl
          | concat =>
              cases tail with
              | nil => exact if_neg (by rw [not_isNamePart_of_isBlank hc]; decide)
              | cons d tail => rfl

/-- The items of a padded line, or none where the line has none. -/
theorem importItems?_padded (hc : isBlank c = true) (h : Padded c text padded) :
    Option.Rel (Padded c) (importItems? text) (importItems? padded) ∨
      importItems? text = none ∧ importItems? padded = some [] := by
  have himport : c ∉ "import".toList := not_mem_of_solid hc (rfl)
  have hbehind := (h.dropBlanks hc).after? himport
  simp only [importItems?, Option.bind_eq_bind]
  generalize after? "import".toList (dropBlanks text) = behind? at hbehind ⊢
  generalize after? "import".toList (dropBlanks padded) = behind?' at hbehind ⊢
  cases hbehind with
  | none => exact .inl .none
  | some hbehind =>
      simp only [Option.bind_some]
      rcases hbehind.afterBlanks? hc with hitems | ⟨hnone, hsome⟩
      · generalize afterBlanks? _ = items? at hitems ⊢
        generalize afterBlanks? _ = items?' at hitems ⊢
        cases hitems with
        | none => exact .inl .none
        | some hitems => exact .inl (.some (hitems.takeWhile _))
      · rw [hnone, hsome]
        exact .inr ⟨rfl, rfl⟩

/-- The imports that a list of items stands for. -/
def itemImports (number : Nat) (items : List Char) : List Import :=
  (parts ',' items).filterMap fun item =>
    (itemModule? item).map fun module => ⟨.plain, String.ofList module, number⟩

theorem lineImports_eq (number : Nat) (line : List Char) : lineImports number line =
    match fromModule? line with
    | some module =>
      if module == "__future__".toList then [] else [⟨.from, String.ofList module, number⟩]
    | none => ((importItems? line).map (itemImports number)).getD [] := by
  rw [lineImports]
  cases fromModule? line with
  | some module => rfl
  | none => cases importItems? line <;> rfl

theorem itemImports_nil (number : Nat) : itemImports number [] = [] := by
  simp [itemImports, Text.parts, itemModule?, isDotted, dottedPrefix?, trim, dropBlanks]

theorem itemImports_padded (hc : isBlank c = true) (h : Padded c text padded) (number : Nat) :
    itemImports number padded = itemImports number text := by
  have hitems : List.Forall₂ (Padded c) (parts ',' text) (parts ',' padded) :=
    h.parts (ne_of_isBlank hc (by decide))
  rw [itemImports, itemImports]
  generalize parts ',' text = items at hitems ⊢
  generalize parts ',' padded = items' at hitems ⊢
  induction hitems with
  | nil => rfl
  | cons hitem _ ih => rw [List.filterMap_cons, List.filterMap_cons, ih, itemModule?_padded hc hitem]

/-- A blank at the end of a line changes nothing in what the line imports. -/
theorem lineImports_padded (hc : isBlank c = true) (h : Padded c text padded) (number : Nat) :
    lineImports number padded = lineImports number text := by
  rw [lineImports_eq, lineImports_eq, fromModule?_padded hc h]
  cases fromModule? text with
  | some module => rfl
  | none =>
      rcases importItems?_padded hc h with hitems | ⟨hnone, hsome⟩
      · generalize importItems? text = items? at hitems ⊢
        generalize importItems? padded = items?' at hitems ⊢
        cases hitems with
        | none => rfl
        | some hitems => exact itemImports_padded hc hitems number
      · rw [hnone, hsome]
        exact itemImports_nil number

theorem lineImports_down (number rows : Nat) (line : List Char) :
    lineImports (number + rows) line = (lineImports number line).map (Import.down rows) := by
  rw [lineImports_eq, lineImports_eq]
  cases fromModule? line with
  | some module =>
      simp only
      split <;> rfl
  | none =>
      cases importItems? line with
      | none => rfl
      | some items =>
          simp only [Option.map_some, Option.getD_some, itemImports, List.map_filterMap,
            Option.map_map]
          rfl

/-! ### Scans -/

/-- The lines of a text are its parts between line feeds, but for carriage returns at their ends. -/
theorem forall₂_lines (source : List Char) :
    List.Forall₂ (Padded '\r') (lines source) (parts '\n' source) := by
  fun_induction lines source with
  | case1 => exact .cons .same .nil
  | case2 rest ih =>
      -- the carriage return is a part's last character and no line's
      have hparts : parts '\n' ('\r' :: '\n' :: rest) = ['\r'] :: parts '\n' rest :=
        Text.parts_cons_of_ne (by decide) (Text.parts_separator '\n' rest)
      rw [hparts]
      exact .cons .concat ih
  | case3 c rest _ hc ih =>
      rw [beq_iff_eq] at hc
      rw [hc, Text.parts_separator]
      exact .cons .same ih
  | case4 c rest _ hc hnil ih =>
      rw [hnil] at ih
      exact absurd (List.forall₂_nil_left_iff.mp ih) (Text.parts_ne_nil '\n' rest)
  | case5 c rest _ hc line others hlines ih =>
      rw [beq_iff_eq] at hc
      rw [hlines] at ih
      obtain ⟨part, parts', hline, hothers, hparts⟩ := List.forall₂_cons_left_iff.mp ih
      rw [Text.parts_cons_of_ne hc hparts]
      exact .cons (hline.cons c) hothers

/-- The imports of lines that have `k` lines above them. -/
def importsFrom (k : Nat) (all : List (List Char)) : List Import :=
  (all.zipIdx k).flatMap fun (line, i) => lineImports (i + 1) line

theorem importsFrom_cons (k : Nat) (line : List Char) (all : List (List Char)) :
    importsFrom k (line :: all) = lineImports (k + 1) line ++ importsFrom (k + 1) all := rfl

theorem importsFrom_append (k : Nat) (all all' : List (List Char)) :
    importsFrom k (all ++ all') = importsFrom k all ++ importsFrom (k + all.length) all' := by
  rw [importsFrom, List.zipIdx_append, List.flatMap_append, ← importsFrom, ← importsFrom]

theorem importsFrom_down (k rows : Nat) (all : List (List Char)) :
    importsFrom (k + rows) all = (importsFrom k all).map (Import.down rows) := by
  induction all generalizing k with
  | nil => rfl
  | cons line all ih =>
      rw [importsFrom_cons, importsFrom_cons, List.map_append, Nat.add_right_comm k rows 1, ih,
        lineImports_down]

/-- Lines that differ in blanks at their ends give the same imports. -/
theorem importsFrom_padded {all all' : List (List Char)} (hc : isBlank c = true)
    (h : List.Forall₂ (Padded c) all all') (k : Nat) : importsFrom k all' = importsFrom k all := by
  induction h generalizing k with
  | nil => rfl
  | cons hline _ ih => rw [importsFrom_cons, importsFrom_cons, ih, lineImports_padded hc hline]

/-- A scan goes through the parts between line feeds. -/
theorem scanLines_eq_parts (source : List Char) :
    scanLines source = importsFrom 0 (parts '\n' source) :=
  (importsFrom_padded (by decide) (forall₂_lines source) 0).symm

/-- A scan of one line. -/
theorem scanLines_line {line : List Char} (h : '\n' ∉ line) :
    scanLines line = lineImports 1 line := by
  rw [scanLines_eq_parts, Text.parts_of_not_mem h, importsFrom_cons]
  exact List.append_nil _

/-- The text with a carriage return in front of each line feed. -/
def withReturns (source : List Char) : List Char :=
  source.flatMap fun c => if c = '\n' then ['\r', '\n'] else [c]

theorem forall₂_withReturns (source : List Char) :
    List.Forall₂ (Padded '\r') (parts '\n' source) (parts '\n' (withReturns source)) := by
  induction source with
  | nil => exact .cons .same .nil
  | cons c source ih =>
      by_cases hc : c = '\n'
      · have hfirst : withReturns (c :: source) = '\r' :: '\n' :: withReturns source := by
          rw [hc]
          rfl
        rw [hfirst, hc, Text.parts_separator,
          Text.parts_cons_of_ne (by decide) (Text.parts_separator '\n' (withReturns source))]
        exact .cons .concat ih
      · have hfirst : withReturns (c :: source) = c :: withReturns source := by
          rw [withReturns, List.flatMap_cons, if_neg hc]
          rfl
        rw [hfirst]
        exact forall₂_parts_cons c ih

/-- Scanning goes line by line: the imports of two texts with a line feed between them are those of the
first text and, further down, those of the second one; so each line brings what it brings alone. Line
feeds with carriage returns in front of them do as well. -/
theorem scanLines_local :
    (∀ first second, scanLines (first ++ '\n' :: second) =
      scanLines first ++ (scanLines second).map (Import.down (first.count '\n' + 1))) ∧
    (∀ source, scanLines source =
      (parts '\n' source).zipIdx.flatMap fun (line, i) => (scanLines line).map (Import.down i)) ∧
    ∀ source, scanLines (withReturns source) = scanLines source := by
  refine ⟨fun first second => ?_, fun source => ?_, fun source => ?_⟩
  · rw [scanLines_eq_parts, scanLines_eq_parts first, scanLines_eq_parts second, Text.parts_append,
      importsFrom_append, Text.length_parts, importsFrom_down]
  · rw [scanLines_eq_parts]
    refine List.flatMap_congr fun (line, i) hmem => ?_
    have hline : line ∈ parts '\n' source := List.fst_mem_of_mem_zipIdx hmem
    show lineImports (i + 1) line = (scanLines line).map (Import.down i)
    rw [scanLines_line (Text.not_mem_of_mem_parts hline), ← lineImports_down, Nat.add_comm]
  · rw [scanLines_eq_parts, scanLines_eq_parts source,
      importsFrom_padded (by decide) (forall₂_withReturns source)]

example : scanLines "import a\r\r\n\x7b\x7b x \x7d\x7d\r\nfrom b import c".toList =
    [⟨.plain, "a", 1⟩, ⟨.from, "b", 3⟩] := by
  decide +kernel

end LinePatterns

end ScriptPack.Python

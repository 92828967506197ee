import Mathlib.Data.List.Induction
import ScriptPack.Path

/-!
Paths as lists of names. A normal path is absolute and made of proper steps, so that taking it apart
gives these steps back and joining a name to it adds the name at the end.
-/

namespace ScriptPack

namespace Text

theorem parts_ne_nil (separator : Char) (text : List Char) : parts separator text ≠ [] := by
  induction text with
  | nil => simp [parts]
  | cons c rest ih =>
      simp only [parts]
      split
      · simp
      · split <;> simp

theorem parts_separator (separator : Char) (rest : List Char) :
    parts separator (separator :: rest) = [] :: parts separator rest := by
  have h := parts_ne_nil separator rest
  simp only [parts]
  cases hr : parts separator rest with
  | nil => exact absurd hr h
  | cons part others => simp

theorem parts_cons_of_ne {separator c : Char} {text part : List Char} {others : List (List Char)}
    (hc : c ≠ separator) (h : parts separator text = part :: others) :
    parts separator (c :: text) = (c :: part) :: others := by
  rw [parts, h]
  exact if_neg (by simpa using hc)

theorem length_parts (separator : Char) (text : List Char) :
    (parts separator text).length = text.count separator + 1 := by
  induction text with
  | nil => rfl
  | cons c text ih =>
      by_cases hc : c = separator
      · rw [hc, parts_separator, List.length_cons, ih, List.count_cons_self]
      · obtain ⟨part, others, hparts⟩ := List.exists_cons_of_ne_nil (parts_ne_nil separator text)
        rw [hparts, List.length_cons] at ih
        rw [parts_cons_of_ne hc hparts, List.length_cons, ih, List.count_cons_of_ne hc]

theorem parts_append (separator : Char) (text rest : List Char) :
    parts separator (text ++ separator :: rest) = parts separator text ++ parts separator rest := by
  induction text with
  | nil => rw [List.nil_append, parts_separator]; rfl
  | cons c text ih =>
      have h := parts_ne_nil separator text
      simp only [List.cons_append, parts, ih]
      cases hp : parts separator text with
      | nil => exact absurd hp h
      | cons part others =>
          simp only [List.cons_append]
          split <;> rfl

theorem parts_of_not_mem {separator : Char} {text : List Char} (h : separator ∉ text) :
    parts separator text = [text] := by
  induction text with
  | nil => rfl
  | cons c rest ih =>
      rw [List.mem_cons, not_or] at h
      simp only [parts, ih h.2, beq_iff_eq, Ne.symm h.1, if_false]

theorem not_mem_of_mem_parts {separator : Char} {text part : List Char}
    (h : part ∈ parts separator text) : separator ∉ part := by
  induction text generalizing part with
  | nil =>
      rw [parts, List.mem_singleton] at h
      simp [h]
  | cons c rest ih =>
      simp only [parts] at h
      cases hr : parts separator rest with
      | nil => exact absurd hr (parts_ne_nil separator rest)
      | cons first others =>
          rw [hr] at h ih
          simp only [beq_iff_eq] at h
          split at h
          · rcases List.mem_cons.mp h with rfl | h
            · exact List.not_mem_nil
            · exact ih h
          · rename_i hc
            rcases List.mem_cons.mp h with rfl | h
            · rw [List.mem_cons, not_or]
              exact ⟨Ne.symm hc, ih List.mem_cons_self⟩
            · exact ih (List.mem_cons_of_mem _ h)

theorem mem_of_mem_parts {separator c : Char} {text part : List Char}
    (h : part ∈ parts separator text) (hc : c ∈ part) : c ∈ text := by
  induction text generalizing part with
  | nil =>
      rw [parts, List.mem_singleton] at h
      rwa [h] at hc
  | cons d rest ih =>
      simp only [parts] at h
      cases hr : parts separator rest with
      | nil => exact absurd hr (parts_ne_nil separator rest)
      | cons first others =>
          rw [hr] at h ih
          simp only [beq_iff_eq] at h
          split at h
          · rcases List.mem_cons.mp h with rfl | h
            · cases hc
            · exact List.mem_cons_of_mem _ (ih h hc)
          · rcases List.mem_cons.mp h with rfl | h
            · rcases List.mem_cons.mp hc with rfl | hc
              · exact List.mem_cons_self
              · exact List.mem_cons_of_mem _ (ih List.mem_cons_self hc)
            · exact List.mem_cons_of_mem _ (ih (List.mem_cons_of_mem _ h) hc)

end Text

namespace Path

/-- A name that leads one step down: no dots and no separator. -/
def IsStep (name : String) : Prop :=
  name ≠ "" ∧ name ≠ "." ∧ name ≠ ".." ∧ '/' ∉ name.toList

variable {path name : String} {all before : List String}

theorem names_append_slash (path rest : String) :
    names (path ++ "/" ++ rest) = names path ++ names rest := by
  have h : ("/" : String).toList = ['/'] := rfl
  simp only [names, String.toList_append, h, List.append_assoc, List.singleton_append,
    Text.parts_append, List.filter_append, List.map_append]

theorem names_eq_singleton (hne : name ≠ "") (hs : '/' ∉ name.toList) : names name = [name] := by
  have hl : name.toList ≠ [] := by simpa using hne
  simp [names, Text.parts_of_not_mem hs, hl]

theorem IsStep.names_eq (h : IsStep name) : names name = [name] :=
  names_eq_singleton h.1 h.2.2.2

theorem names_child (path : String) (h : IsStep name) :
    names (path ++ "/" ++ name) = names path ++ [name] := by
  rw [names_append_slash, h.names_eq]

theorem mem_names (h : name ∈ names path) : name ≠ "" ∧ '/' ∉ name.toList := by
  simp only [names, List.mem_map, List.mem_filter] at h
  obtain ⟨part, ⟨hp, hne⟩, rfl⟩ := h
  refine ⟨by simpa using hne, ?_⟩
  rw [String.toList_ofList]
  exact Text.not_mem_of_mem_parts hp

theorem mem_of_mem_names {c : Char} (h : name ∈ names path) (hc : c ∈ name.toList) :
    c ∈ path.toList := by
  simp only [names, List.mem_map, List.mem_filter] at h
  obtain ⟨part, ⟨hp, -⟩, rfl⟩ := h
  rw [String.toList_ofList] at hc
  exact Text.mem_of_mem_parts hp hc

theorem endsWithSeparator_under (path : String) (h : name ≠ "" ∧ '/' ∉ name.toList) :
    endsWithSeparator (path ++ "/" ++ name) = false := by
  obtain ⟨hne, hs⟩ := h
  have hl : name.toList ≠ [] := by simpa using hne
  simp only [endsWithSeparator, String.toList_append, List.getLast?_append, beq_eq_false_iff_ne,
    ne_eq]
  intro heq
  rw [List.getLast?_eq_some_getLast hl, Option.some_or, Option.some.injEq] at heq
  exact hs (heq ▸ List.getLast_mem hl)

theorem endsWithSeparator_child (path : String) (h : IsStep name) :
    endsWithSeparator (path ++ "/" ++ name) = false :=
  endsWithSeparator_under path ⟨h.1, h.2.2.2⟩

theorem endsWithSeparator_step (h : IsStep name) : endsWithSeparator name = false := by
  simp only [endsWithSeparator, beq_eq_false_iff_ne, ne_eq]
  intro heq
  exact h.2.2.2 (List.mem_of_getLast? heq)

theorem isAbsolute_append (h : isAbsolute path = true) (rest : String) :
    isAbsolute (path ++ rest) = true := by
  simp only [isAbsolute, String.toList_append, beq_iff_eq] at h ⊢
  rw [List.head?_append, h]
  rfl

/-! ### Normalisation -/

theorem foldl_normalStep (rooted : Bool) (h : ∀ name ∈ all, IsStep name) :
    all.foldl (normalStep rooted) before = all.reverse ++ before := by
  induction all generalizing before with
  | nil => rfl
  | cons name all ih =>
      obtain ⟨-, hdot, hdots, -⟩ := h name List.mem_cons_self
      have hstep : normalStep rooted before name = name :: before := by
        simp [normalStep, hdot, hdots]
      rw [List.foldl_cons, hstep, ih fun n hn => h n (List.mem_cons_of_mem _ hn)]
      simp

theorem normalNames_of_steps (rooted : Bool) (h : ∀ name ∈ all, IsStep name) :
    normalNames rooted all = all := by
  rw [normalNames, foldl_normalStep rooted h]
  simp

theorem normalNames_concat (rooted : Bool) (all : List String) (h : IsStep name) :
    normalNames rooted (all ++ [name]) = normalNames rooted all ++ [name] := by
  obtain ⟨-, hdot, hdots, -⟩ := h
  simp [normalNames, List.foldl_append, normalStep, hdot, hdots]

theorem normalNames_concat_dot (rooted : Bool) (all : List String) :
    normalNames rooted (all ++ ["."]) = normalNames rooted all := by
  simp [normalNames, List.foldl_append, normalStep]

theorem mem_of_mem_normalNames {rooted : Bool} (h : name ∈ normalNames rooted all) :
    name ∈ all ∨ name = ".." := by
  induction all using List.reverseRecOn generalizing name with
  | nil => cases h
  | append_singleton all last ih =>
      have hearlier : ∀ n ∈ all.foldl (normalStep rooted) [], n ∈ all ∨ n = ".." :=
        fun n hn => ih (List.mem_reverse.mpr hn)
      have hmem : name ∈ normalStep rooted (all.foldl (normalStep rooted) []) last := by
        simpa [normalNames, List.foldl_append] using h
      revert hearlier hmem
      generalize all.foldl (normalStep rooted) [] = done
      intro hearlier hmem
      rw [List.mem_append]
      simp only [normalStep] at hmem
      split at hmem
      · exact (hearlier _ hmem).imp_left .inl
      · split at hmem
        · cases done with
          | nil =>
              cases rooted with
              | true => cases hmem
              | false => exact .inr (List.mem_singleton.mp hmem)
          | cons top earlier =>
              simp only at hmem
              split at hmem
              · rcases List.mem_cons.mp hmem with hmem | hmem
                · exact .inr hmem
                · exact (hearlier _ hmem).imp_left .inl
              · exact (hearlier _ (List.mem_cons_of_mem _ hmem)).imp_left .inl
        · rcases List.mem_cons.mp hmem with hmem | hmem
          · exact .inl (.inr (by rw [hmem]; exact List.mem_singleton_self _))
          · exact (hearlier _ hmem).imp_left .inl

/-- The second list of names is the first one without some of its dots. -/
inductive Undots : List String → List String → Prop
  | nil : Undots [] []
  | keep (name : String) {all kept : List String} (h : Undots all kept) :
      Undots (name :: all) (name :: kept)
  | drop {all kept : List String} (h : Undots all kept) : Undots ("." :: all) kept

theorem Undots.append_left {all kept : List String} (before : List String) (h : Undots all kept) :
    Undots (before ++ all) (before ++ kept) := by
  induction before with
  | nil => exact h
  | cons name before ih => exact .keep name ih

theorem Undots.append {all all' kept kept' : List String} (h : Undots all kept)
    (h' : Undots all' kept') : Undots (all ++ all') (kept ++ kept') := by
  induction h with
  | nil => exact h'
  | keep name _ ih => exact .keep name ih
  | drop _ ih => exact .drop ih

theorem Undots.refl (all : List String) : Undots all all := by
  rw [← List.append_nil all]
  exact .append_left all .nil

/-- What stands behind some names still does when dots are dropped. -/
theorem Undots.split {all more kept : List String} (h : Undots (all ++ more) kept) :
    ∃ front behind, kept = front ++ behind ∧ Undots all front ∧ Undots more behind := by
  generalize hwhole : all ++ more = whole at h
  induction h generalizing all with
  | nil =>
      obtain ⟨rfl, rfl⟩ := List.append_eq_nil_iff.mp hwhole
      exact ⟨[], [], rfl, .nil, .nil⟩
  | @keep name whole kept h ih =>
      cases all with
      | nil =>
          obtain rfl : more = name :: whole := hwhole
          exact ⟨[], name :: kept, rfl, .nil, .keep name h⟩
      | cons first all =>
          obtain ⟨rfl, hrest⟩ := List.cons.inj hwhole
          obtain ⟨front, behind, rfl, hfront, hbehind⟩ := ih hrest
          exact ⟨first :: front, behind, rfl, .keep first hfront, hbehind⟩
  | @drop whole kept h ih =>
      cases all with
      | nil =>
          obtain rfl : more = "." :: whole := hwhole
          exact ⟨[], kept, rfl, .nil, .drop h⟩
      | cons first all =>
          obtain ⟨rfl, hrest⟩ := List.cons.inj hwhole
          obtain ⟨front, behind, rfl, hfront, hbehind⟩ := ih hrest
          exact ⟨front, behind, rfl, .drop hfront, hbehind⟩

theorem Undots.filter_eq {all kept : List String} (h : Undots all kept) :
    kept.filter (· != ".") = all.filter (· != ".") := by
  induction h with
  | nil => rfl
  | keep name _ ih => rw [List.filter_cons, List.filter_cons, ih]
  | drop _ ih => exact ih

theorem Undots.subset {all kept : List String} (h : Undots all kept) : kept ⊆ all := by
  induction h with
  | nil => exact List.Subset.refl []
  | keep name _ ih => exact List.cons_subset_cons name ih
  | drop _ ih => exact List.subset_cons_of_subset "." ih

/-- Without steps up, normalisation only drops dots. -/
theorem undots_normalNames (rooted : Bool) (h : ∀ name ∈ all, name ≠ "" ∧ '/' ∉ name.toList)
    (hup : ".." ∉ all) : Undots all (normalNames rooted all) := by
  induction all using List.reverseRecOn with
  | nil => exact .nil
  | append_singleton all name ih =>
      have hrest := ih (fun n hn => h n (List.mem_append_left _ hn))
        fun hn => hup (List.mem_append_left _ hn)
      by_cases hdot : name = "."
      · subst hdot
        rw [normalNames_concat_dot, ← List.append_nil (normalNames rooted all)]
        exact hrest.append (.drop .nil)
      · obtain ⟨hne, hs⟩ := h name (by simp)
        have hstep : IsStep name := ⟨hne, hdot, fun heq => hup (by simp [heq]), hs⟩
        rw [normalNames_concat rooted all hstep]
        exact hrest.append (.keep name .nil)

/-- Below a root, normalisation leaves proper steps only. -/
theorem isStep_of_mem_normalNames (h : ∀ name ∈ all, name ≠ "" ∧ '/' ∉ name.toList)
    (hn : name ∈ normalNames true all) : IsStep name := by
  have key : ∀ before : List String, (∀ n ∈ before, IsStep n) →
      ∀ n ∈ all.foldl (normalStep true) before, IsStep n := by
    clear hn
    induction all with
    | nil => exact fun before hb => hb
    | cons next all ih =>
        intro before hb
        rw [List.foldl_cons]
        refine ih (fun n hn => h n (List.mem_cons_of_mem _ hn)) _ ?_
        intro n hn
        obtain ⟨hne, hs⟩ := h next List.mem_cons_self
        simp only [normalStep, beq_iff_eq] at hn
        split at hn
        · exact hb n hn
        · rename_i hdot
          split at hn
          · cases before with
            | nil => simp at hn
            | cons last earlier =>
                have hlast := hb last List.mem_cons_self
                simp only [hlast.2.2.1, if_false] at hn
                exact hb n (List.mem_cons_of_mem _ hn)
          · rename_i hdots
            rcases List.mem_cons.mp hn with rfl | hn
            · exact ⟨hne, hdot, hdots, hs⟩
            · exact hb n hn
  exact key [] (fun n hn => nomatch hn) name (List.mem_reverse.mp hn)

/-- The path from the root along the given names. -/
def ofNames (all : List String) : String := "/" ++ glue all

/-- A normal path: absolute, and made of one or more proper steps. -/
def IsNormal (path : String) : Prop :=
  ∃ all, all ≠ [] ∧ (∀ name ∈ all, IsStep name) ∧ path = ofNames all

theorem glue_concat (h : all ≠ []) (name : String) :
    glue (all ++ [name]) = glue all ++ "/" ++ name := by
  rw [glue, String.intercalate_append_of_ne_nil h (by simp), String.intercalate_singleton, glue]

theorem ofNames_concat (h : all ≠ []) (name : String) :
    ofNames (all ++ [name]) = ofNames all ++ "/" ++ name := by
  rw [ofNames, glue_concat h, ofNames]
  simp only [String.append_assoc]

theorem names_ofNames (h : ∀ name ∈ all, IsStep name) : names (ofNames all) = all := by
  induction all using List.reverseRecOn with
  | nil => rfl
  | append_singleton all name ih =>
      have hname := h name (by simp)
      by_cases hl : all = []
      · subst hl
        have hone : ofNames ([] ++ [name]) = "" ++ "/" ++ name := by
          simp [ofNames, glue]
        rw [hone, names_child _ hname]
        rfl
      · rw [ofNames_concat hl, names_child _ hname, ih fun n hn => h n (by simp [hn])]

/-- Joining two pieces of text. -/
theorem join_pair {piece other : String} (h : piece ≠ "") (h' : other ≠ "") :
    join [piece, other] = normalize (piece ++ "/" ++ other) := by
  have hpiece : piece.isEmpty = false := by
    rw [Bool.eq_false_iff, ne_eq, String.isEmpty_iff]
    exact h
  have hother : other.isEmpty = false := by
    rw [Bool.eq_false_iff, ne_eq, String.isEmpty_iff]
    exact h'
  have hglue : glue [piece, other] = piece ++ "/" ++ other := by
    rw [glue, String.intercalate_cons_cons, String.intercalate_singleton]
  simp only [join, List.filter_cons, hpiece, hother, Bool.not_false, if_true, List.filter_nil,
    List.isEmpty_cons, Bool.false_eq_true, if_false, hglue]

/-- Joining a name to the root. -/
theorem join_root (hn : IsStep name) : join ["/", name] = ofNames [name] := by
  have hnames : names ("/" ++ "/" ++ name) = [name] := by
    rw [names_append_slash, hn.names_eq]
    rfl
  have habs : isAbsolute ("/" ++ "/" ++ name) = true := by
    rw [String.append_assoc]
    exact isAbsolute_append (by decide) _
  have hkept : normalNames true [name] = [name] := normalNames_of_steps true (by simpa using hn)
  have hne : ("/" ++ "/" ++ name).isEmpty = false := by simp
  rw [join_pair (by decide) hn.1, normalize, hne, hnames, habs]
  simp only [hkept, endsWithSeparator_child "/" hn, Bool.false_eq_true, if_false, if_true,
    List.isEmpty_cons, String.append_empty]
  rfl

theorem isAbsolute_glue (h : ∀ n ∈ all, n ≠ "" ∧ '/' ∉ n.toList) : isAbsolute (glue all) = false := by
  cases all with
  | nil => rfl
  | cons first rest =>
      obtain ⟨hne, hs⟩ := h first List.mem_cons_self
      have hl : first.toList ≠ [] := by simpa using hne
      obtain ⟨c, cs, hc⟩ := List.exists_cons_of_ne_nil hl
      have hglue : ∃ tail, (glue (first :: rest)).toList = first.toList ++ tail := by
        cases rest with
        | nil => exact ⟨[], by simp [glue]⟩
        | cons next rest =>
            refine ⟨("/" ++ glue (next :: rest)).toList, ?_⟩
            rw [glue, String.intercalate_cons_cons, String.append_assoc, String.toList_append, glue]
      obtain ⟨tail, ht⟩ := hglue
      rw [isAbsolute, ht, hc, List.cons_append, List.head?_cons, beq_eq_false_iff_ne]
      rw [hc, List.mem_cons, not_or] at hs
      simpa using fun heq => hs.1 heq.symm

theorem glue_ne_empty (all : List String) (h : name ≠ "") : glue (all ++ [name]) ≠ "" := by
  by_cases hl : all = []
  · subst hl
    simpa [glue] using h
  · rw [glue_concat hl]
    simp

theorem isAbsolute_append_of_ne (h : path ≠ "") (rest : String) :
    isAbsolute (path ++ rest) = isAbsolute path := by
  have hl : path.toList ≠ [] := by simpa using h
  obtain ⟨c, cs, hc⟩ := List.exists_cons_of_ne_nil hl
  simp only [isAbsolute, String.toList_append, hc, List.cons_append, List.head?_cons]

/-- A name behind a path, normalised. -/
theorem normalize_child (hne : path ≠ "") (hn : IsStep name) :
    normalize (path ++ "/" ++ name) =
      (if isAbsolute path then "/" else "") ++
        glue (normalNames (isAbsolute path) (names path) ++ [name]) := by
  have habs : isAbsolute (path ++ "/" ++ name) = isAbsolute path := by
    rw [String.append_assoc, isAbsolute_append_of_ne hne]
  rw [normalize, habs, names_child path hn]
  simp [normalNames_concat _ _ hn, endsWithSeparator_child path hn]

theorem mem_normalNames_names (rooted : Bool)
    (h : name ∈ normalNames rooted (names path)) : name ≠ "" ∧ '/' ∉ name.toList := by
  rcases mem_of_mem_normalNames h with h | rfl
  · exact mem_names h
  · decide

/-- Joining a name to a path. -/
theorem join_name (hne : path ≠ "") (hn : IsStep name) :
    join [path, name] = (if isAbsolute path then "/" else "") ++
      glue (normalNames (isAbsolute path) (names path) ++ [name]) := by
  rw [join_pair hne hn.1, normalize_child hne hn]

theorem isAbsolute_step (hn : IsStep name) : isAbsolute name = false := by
  have h : isAbsolute (glue [name]) = false := isAbsolute_glue fun n hm => by
    rw [List.mem_singleton.mp hm]
    exact ⟨hn.1, hn.2.2.2⟩
  simpa [glue] using h

/-- Joining a name to nothing. -/
theorem join_empty (hn : IsStep name) : join ["", name] = name := by
  have hrel := isAbsolute_step hn
  have hempty : name.isEmpty = false := by
    rw [Bool.eq_false_iff, ne_eq, String.isEmpty_iff]
    exact hn.1
  have hkept : normalNames false [name] = [name] := normalNames_of_steps false (by simpa using hn)
  simp [join, normalize, hempty, hrel, hn.names_eq, hkept, endsWithSeparator_step hn, glue]

namespace IsNormal

theorem isAbsolute (h : IsNormal path) : isAbsolute path = true := by
  obtain ⟨all, -, -, rfl⟩ := h
  simp [Path.isAbsolute, ofNames]

theorem ne_empty (h : IsNormal path) : path ≠ "" := by
  intro hp
  have habs := h.isAbsolute
  rw [hp] at habs
  exact absurd habs (by decide)

theorem child (h : IsNormal path) (hn : IsStep name) : IsNormal (path ++ "/" ++ name) := by
  obtain ⟨all, hne, hsteps, rfl⟩ := h
  refine ⟨all ++ [name], by simp, fun n hn' => ?_, (ofNames_concat hne name).symm⟩
  rcases List.mem_append.mp hn' with hn' | hn'
  · exact hsteps n hn'
  · rw [List.mem_singleton.mp hn']
    exact hn

theorem isStep (h : IsNormal path) (hn : name ∈ names path) : IsStep name := by
  obtain ⟨all, -, hsteps, rfl⟩ := h
  rw [names_ofNames hsteps] at hn
  exact hsteps name hn

theorem names_ne_nil (h : IsNormal path) : names path ≠ [] := by
  obtain ⟨all, hne, hsteps, rfl⟩ := h
  rwa [names_ofNames hsteps]

theorem ofNames_names (h : IsNormal path) : ofNames (names path) = path := by
  obtain ⟨all, -, hsteps, rfl⟩ := h
  rw [names_ofNames hsteps]

theorem endsWithSeparator (h : IsNormal path) : endsWithSeparator path = false := by
  obtain ⟨all, hne, hsteps, rfl⟩ := h
  obtain ⟨init, last, rfl⟩ := List.eq_nil_or_concat all |>.resolve_left hne
  rw [List.concat_eq_append] at hsteps ⊢
  have hlast := hsteps last (by simp)
  by_cases hl : init = []
  · subst hl
    have hone : ofNames ([] ++ [last]) = "" ++ "/" ++ last := by
      simp [ofNames, glue]
    rw [hone]
    exact endsWithSeparator_child _ hlast
  · rw [ofNames_concat hl]
    exact endsWithSeparator_child _ hlast

theorem normalize_eq (h : IsNormal path) : normalize path = path := by
  have hrest : "/" ++ glue (names path) = path := h.ofNames_names
  rw [normalize]
  simp only [h.ne_empty, h.isAbsolute, h.endsWithSeparator, String.isEmpty_iff, if_false, if_true,
    normalNames_of_steps true fun n => h.isStep, List.isEmpty_iff, h.names_ne_nil,
    Bool.false_eq_true, String.append_empty]
  exact hrest

/-- Joining a name to a normal path puts it behind a separator. -/
theorem join_child (h : IsNormal path) (hn : IsStep name) :
    join [path, name] = path ++ "/" ++ name := by
  rw [join_pair h.ne_empty hn.1]
  exact (h.child hn).normalize_eq

theorem directory_child (h : IsNormal path) (hn : IsStep name) :
    directory (path ++ "/" ++ name) = path := by
  have habs : Path.isAbsolute (path ++ "/" ++ name) = true := by
    rw [String.append_assoc]
    exact isAbsolute_append h.isAbsolute _
  have hrest : "/" ++ glue (names path) = path := h.ofNames_names
  have hne := h.names_ne_nil
  rw [directory, names_child path hn, List.dropLast_concat, habs]
  cases hc : names path with
  | nil => exact absurd hc hne
  | cons first rest =>
      rw [hc] at hrest
      exact hrest

theorem resolve_eq (h : IsNormal path) (current : String) : resolve current path = path := by
  simp only [resolve, h.isAbsolute, if_true, normalNames_of_steps true fun n => h.isStep]
  exact h.ofNames_names

end IsNormal

/-- The normal form of a path is the root or a normal path. -/
theorem resolve_isNormal (current path : String) :
    resolve current path = "/" ∨ IsNormal (resolve current path) := by
  by_cases h : normalNames true
      (if Path.isAbsolute path then names path else names current ++ names path) = []
  · left
    rw [resolve]
    simp only [h]
    rfl
  · right
    refine ⟨_, h, fun name hn => isStep_of_mem_normalNames (fun n hn' => ?_) hn, rfl⟩
    split at hn'
    · exact mem_names hn'
    · rcases List.mem_append.mp hn' with hn' | hn'
      · exact mem_names hn'
      · exact mem_names hn'

/-! ### Going on along names -/

/-- The path that leads from another one along names. -/
def under (path : String) (all : List String) : String :=
  all.foldl (fun path name => path ++ "/" ++ name) path

theorem names_under (h : ∀ name ∈ all, name ≠ "" ∧ '/' ∉ name.toList) :
    names (under path all) = names path ++ all := by
  induction all generalizing path with
  | nil => simp [under]
  | cons name all ih =>
      obtain ⟨hne, hs⟩ := h name List.mem_cons_self
      have hrest : names (under (path ++ "/" ++ name) all) = names (path ++ "/" ++ name) ++ all :=
        ih fun n hn => h n (List.mem_cons_of_mem _ hn)
      rw [names_append_slash, names_eq_singleton hne hs] at hrest
      rw [under, List.foldl_cons]
      exact hrest.trans (by simp)

theorem mem_under {c : Char} (h : c ∈ (under path all).toList) :
    c ∈ path.toList ∨ c = '/' ∨ ∃ name ∈ all, c ∈ name.toList := by
  induction all generalizing path with
  | nil => exact .inl h
  | cons name all ih =>
      rcases ih h with h | h | ⟨n, hn, h⟩
      · simp only [String.toList_append, List.mem_append] at h
        rcases h with (h | h) | h
        · exact .inl h
        · exact .inr (.inl (List.mem_singleton.mp h))
        · exact .inr (.inr ⟨name, List.mem_cons_self, h⟩)
      · exact .inr (.inl h)
      · exact .inr (.inr ⟨n, List.mem_cons_of_mem _ hn, h⟩)

theorem under_concat (path : String) (all : List String) (name : String) :
    under path (all ++ [name]) = under path all ++ "/" ++ name := by
  simp [under]

theorem under_eq (path : String) (h : all ≠ []) : under path all = path ++ "/" ++ glue all := by
  induction all using List.reverseRecOn with
  | nil => exact absurd rfl h
  | append_singleton all name ih =>
      rw [under_concat]
      by_cases hl : all = []
      · subst hl
        simp [under, glue]
      · rw [ih hl, glue_concat hl]
        simp only [String.append_assoc]

theorem IsNormal.under_names (h : IsNormal path) : under "" (names path) = path := by
  rw [under_eq "" h.names_ne_nil]
  exact h.ofNames_names

end Path

end ScriptPack

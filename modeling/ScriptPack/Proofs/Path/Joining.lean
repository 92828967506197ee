import ScriptPack.Proofs.Path

/-!
Joining several names to a path. Normal names are settled: steps up, where there is no root, and then
proper steps. Therefore names that are joined to a path stand behind its normal form
(`join_steps`), and it does not matter whether they are joined at once or one after the other
(`join_join`, `join_append`).
-/

namespace ScriptPack.Path

variable {rooted : Bool} {all packages more : List String} {name root path : String}

/-! ### Settled names -/

/-- Names in which normalisation changes nothing. -/
def Settled (rooted : Bool) (all : List String) : Prop :=
  ∃ ups kept, all = List.replicate ups ".." ++ kept ∧ (rooted = true → ups = 0) ∧
    ∀ name ∈ kept, IsStep name

theorem normalNames_step (rooted : Bool) (all : List String) (name : String) :
    normalNames rooted (all ++ [name]) =
      (normalStep rooted (normalNames rooted all).reverse name).reverse := by
  simp [normalNames, List.foldl_append]

/-- One more name leaves settled names settled. -/
theorem Settled.step (h : Settled rooted all) (hname : name ≠ "" ∧ '/' ∉ name.toList) :
    Settled rooted (normalStep rooted all.reverse name).reverse := by
  obtain ⟨ups, kept, rfl, hups, hkept⟩ := h
  by_cases hdot : name = "."
  · refine ⟨ups, kept, ?_, hups, hkept⟩
    simp [normalStep, hdot]
  by_cases hdots : name = ".."
  · subst hdots
    rcases List.eq_nil_or_concat kept with rfl | ⟨init, last, rfl⟩
    · -- nothing is left to step out of
      cases ups with
      | zero =>
          cases rooted with
          | true => exact ⟨0, [], rfl, fun _ => rfl, hkept⟩
          | false => exact ⟨1, [], rfl, by simp, hkept⟩
      | succ ups =>
          refine ⟨ups + 1 + 1, [], ?_, fun hrooted => absurd (hups hrooted) (by simp), hkept⟩
          simp [normalStep, List.replicate_succ, ← List.replicate_succ']
    · rw [List.concat_eq_append] at hkept ⊢
      have hlast : last ≠ ".." := (hkept last (by simp)).2.2.1
      refine ⟨ups, init, ?_, hups, fun n hn => hkept n (List.mem_append_left _ hn)⟩
      simp [normalStep, hlast]
  · refine ⟨ups, kept ++ [name], ?_, hups, fun n hn => ?_⟩
    · simp [normalStep, hdot, hdots]
    · rcases List.mem_append.mp hn with hn | hn
      · exact hkept n hn
      · exact List.mem_singleton.mp hn ▸ ⟨hname.1, hdot, hdots, hname.2⟩

theorem settled_normalNames (rooted : Bool) (h : ∀ name ∈ all, name ≠ "" ∧ '/' ∉ name.toList) :
    Settled rooted (normalNames rooted all) := by
  induction all using List.reverseRecOn with
  | nil => exact ⟨0, [], rfl, fun _ => rfl, nofun⟩
  | append_singleton all name ih =>
      rw [normalNames_step]
      exact (ih fun n hn => h n (List.mem_append_left _ hn)).step (h name (by simp))

theorem normalNames_append (rooted : Bool) (all : List String) (h : ∀ name ∈ more, IsStep name) :
    normalNames rooted (all ++ more) = normalNames rooted all ++ more := by
  rw [normalNames, List.foldl_append, foldl_normalStep rooted h, List.reverse_append,
    List.reverse_reverse, ← normalNames]

theorem normalNames_ups (ups : Nat) :
    normalNames false (List.replicate ups "..") = List.replicate ups ".." := by
  induction ups with
  | zero => rfl
  | succ ups ih =>
      rw [List.replicate_succ', normalNames_step, ih, List.reverse_replicate]
      cases ups with
      | zero => rfl
      | succ ups => simp [normalStep, List.replicate_succ, ← List.replicate_succ']

theorem Settled.normalNames_eq (h : Settled rooted all) : normalNames rooted all = all := by
  obtain ⟨ups, kept, rfl, hups, hkept⟩ := h
  rw [normalNames_append rooted _ hkept]
  cases rooted with
  | true => rw [hups rfl]; rfl
  | false => rw [normalNames_ups]

/-- In settled names, only steps come behind a step. -/
theorem Settled.isStep_behind (h : Settled rooted (all ++ name :: more)) (hname : IsStep name) :
    ∀ n ∈ more, IsStep n := by
  obtain ⟨ups, kept, heq, -, hkept⟩ := h
  rcases List.append_eq_append_iff.mp heq with ⟨between, hups, hbehind⟩ | ⟨between, -, hbehind⟩
  · cases between with
    | nil =>
        rw [List.nil_append] at hbehind
        exact fun n hn => hkept n (hbehind ▸ List.mem_cons_of_mem _ hn)
    | cons first between =>
        rw [List.cons_append, List.cons.injEq] at hbehind
        have hmem : name ∈ List.replicate ups ".." := by
          rw [hups, hbehind.1]
          simp
        exact absurd (List.eq_of_mem_replicate hmem) hname.2.2.1
  · exact fun n hn => hkept n (by rw [hbehind]; simp [hn])

/-- Names behind others can wait for these to be normalised. -/
theorem normalNames_normalNames_append (rooted : Bool) (more : List String)
    (h : ∀ name ∈ all, name ≠ "" ∧ '/' ∉ name.toList) :
    normalNames rooted (normalNames rooted all ++ more) = normalNames rooted (all ++ more) := by
  have hsettled : (normalNames rooted all).foldl (normalStep rooted) [] =
      all.foldl (normalStep rooted) [] := by
    rw [← List.reverse_inj]
    exact (settled_normalNames rooted h).normalNames_eq
  have hbehind (names : List String) : normalNames rooted (names ++ more) =
      (more.foldl (normalStep rooted) (names.foldl (normalStep rooted) [])).reverse := by
    rw [normalNames, List.foldl_append]
  rw [hbehind, hbehind, hsettled]

/-! ### Paths of names -/

theorem glue_append (h : all ≠ []) (h' : more ≠ []) :
    glue (all ++ more) = glue all ++ "/" ++ glue more := by
  rw [glue, String.intercalate_append_of_ne_nil h h', glue, glue]

theorem endsWithSeparator_append_of_ne (path : String) {rest : String} (h : rest ≠ "") :
    endsWithSeparator (path ++ rest) = endsWithSeparator rest := by
  have hlast : rest.toList ≠ [] := by simpa using h
  rw [endsWithSeparator, endsWithSeparator, String.toList_append, List.getLast?_append,
    List.getLast?_eq_some_getLast hlast, Option.some_or]

theorem endsWithSeparator_glue (all : List String) (h : IsStep name) :
    endsWithSeparator (glue (all ++ [name])) = false := by
  by_cases hall : all = []
  · subst hall
    simpa [glue] using endsWithSeparator_step h
  · rw [glue_concat hall]
    exact endsWithSeparator_child _ h

theorem names_glue (h : ∀ name ∈ all, name ≠ "" ∧ '/' ∉ name.toList) : names (glue all) = all := by
  induction all using List.reverseRecOn with
  | nil => rfl
  | append_singleton all name ih =>
      obtain ⟨hne, hs⟩ := h name (by simp)
      by_cases hall : all = []
      · subst hall
        simpa [glue] using names_eq_singleton hne hs
      · rw [glue_concat hall, names_append_slash, names_eq_singleton hne hs,
          ih fun n hn => h n (List.mem_append_left _ hn)]

/-- The path along some names, from the root or from where one is. -/
def along (rooted : Bool) (all : List String) : String :=
  (if rooted then "/" else "") ++ glue all

theorem names_along (rooted : Bool) (h : ∀ name ∈ all, name ≠ "" ∧ '/' ∉ name.toList) :
    names (along rooted all) = all := by
  cases rooted with
  | false =>
      rw [along, if_neg Bool.false_ne_true, String.empty_append, names_glue h]
  | true =>
      have hnames := names_append_slash "" (glue all)
      rw [names_glue h] at hnames
      exact hnames

theorem isAbsolute_along (rooted : Bool) (h : ∀ name ∈ all, name ≠ "" ∧ '/' ∉ name.toList) :
    isAbsolute (along rooted all) = rooted := by
  cases rooted with
  | false =>
      rw [along, if_neg Bool.false_ne_true, String.empty_append, isAbsolute_glue h]
  | true => exact isAbsolute_append (by decide) _

theorem along_ne_empty (rooted : Bool) (h : all ≠ []) (hall : ∀ name ∈ all, name ≠ "") :
    along rooted all ≠ "" := by
  obtain ⟨init, last, rfl⟩ := List.eq_nil_or_concat all |>.resolve_left h
  rw [List.concat_eq_append] at hall ⊢
  intro heq
  exact glue_ne_empty init (hall last (by simp)) (String.append_eq_empty_iff.mp heq).2

theorem directory_along (rooted : Bool) (h : ∀ n ∈ all ++ [name], n ≠ "" ∧ '/' ∉ n.toList) :
    directory (along rooted (all ++ [name])) =
      along rooted (if all = [] ∧ rooted = false then ["."] else all) := by
  rw [directory, names_along rooted h, isAbsolute_along rooted h, List.dropLast_concat]
  cases all with
  | nil => cases rooted <;> rfl
  | cons first all => rfl

/-- The normal form of a path has the normal names of that path. -/
theorem normalNames_normalize (path : String) :
    isAbsolute (normalize path) = isAbsolute path ∧
      normalNames (isAbsolute path) (names (normalize path)) =
        normalNames (isAbsolute path) (names path) := by
  by_cases hempty : path = ""
  · subst hempty
    decide
  have hplain : ∀ name ∈ normalNames (isAbsolute path) (names path),
      name ≠ "" ∧ '/' ∉ name.toList := fun name hname => mem_normalNames_names _ hname
  have hsettled : normalNames (isAbsolute path) (normalNames (isAbsolute path) (names path)) =
      normalNames (isAbsolute path) (names path) :=
    (settled_normalNames _ fun name hname => mem_names hname).normalNames_eq
  rw [normalize, if_neg (by simpa using hempty)]
  simp only
  generalize isAbsolute path = rooted at hplain hsettled ⊢
  generalize normalNames rooted (names path) = kept at hplain hsettled ⊢
  by_cases hkept : kept = []
  · subst hkept
    cases endsWithSeparator path <;> cases rooted <;> decide
  · rw [if_neg (by simpa using hkept)]
    have hne := along_ne_empty rooted hkept fun name hname => (hplain name hname).1
    -- a separator at the end is kept, and brings no name
    show isAbsolute (along rooted kept ++ _) = _ ∧ normalNames _ (names (along rooted kept ++ _)) = _
    rw [isAbsolute_append_of_ne hne, isAbsolute_along rooted hplain]
    refine ⟨rfl, ?_⟩
    split
    · have hnames := names_append_slash (along rooted kept) ""
      rw [String.append_empty, names_along rooted hplain] at hnames
      rw [hnames, show names "" = [] from rfl, List.append_nil, hsettled]
    · rw [String.append_empty, names_along rooted hplain, hsettled]

/-- The normal form of a path that ends in a name. -/
theorem normalize_eq_along (hne : path ≠ "") (hs : endsWithSeparator path = false)
    (hkept : normalNames (isAbsolute path) (names path) ≠ []) :
    normalize path = along (isAbsolute path) (normalNames (isAbsolute path) (names path)) := by
  simp [normalize, along, hne, hs, hkept]

/-! ### Joined paths -/

theorem join_eq_normalize (pieces : List String) :
    join pieces = normalize (glue (pieces.filter (!·.isEmpty))) := by
  rw [join]
  split
  · rename_i hnone
    rw [List.isEmpty_iff.mp hnone]
    rfl
  · rfl

theorem filter_steps (h : ∀ name ∈ packages, IsStep name) :
    packages.filter (!·.isEmpty) = packages :=
  List.filter_eq_self.mpr fun name hname => by simpa using (h name hname).1

/-- The text that is made of a path and of names behind it. -/
theorem glue_root (root : String) (h : ∀ name ∈ packages, IsStep name) :
    isAbsolute (glue ((root :: packages).filter (!·.isEmpty))) = isAbsolute root ∧
      names (glue ((root :: packages).filter (!·.isEmpty))) = names root ++ packages := by
  have hplain : ∀ name ∈ packages, name ≠ "" ∧ '/' ∉ name.toList :=
    fun name hname => ⟨(h name hname).1, (h name hname).2.2.2⟩
  rw [List.filter_cons, filter_steps h]
  by_cases hroot : root = ""
  · subst hroot
    exact ⟨isAbsolute_glue hplain, names_glue hplain⟩
  · rw [if_pos (by simpa using hroot)]
    cases packages with
    | nil => simp [glue]
    | cons name packages =>
        have hglue : glue (root :: name :: packages) = root ++ "/" ++ glue (name :: packages) :=
          glue_append (List.cons_ne_nil root []) (List.cons_ne_nil name packages)
        rw [hglue, names_append_slash, names_glue hplain, String.append_assoc,
          isAbsolute_append_of_ne hroot]
        exact ⟨rfl, rfl⟩

/-- Names behind a path stand behind the normal form of that path. -/
theorem join_steps (root : String) (hne : packages ≠ []) (h : ∀ name ∈ packages, IsStep name) :
    join (root :: packages) =
      along (isAbsolute root) (normalNames (isAbsolute root) (names root) ++ packages) := by
  obtain ⟨habs, hnames⟩ := glue_root root h
  have hkept : normalNames (isAbsolute root) (names root ++ packages) =
      normalNames (isAbsolute root) (names root) ++ packages := normalNames_append _ _ h
  obtain ⟨init, last, rfl⟩ := List.eq_nil_or_concat packages |>.resolve_left hne
  rw [List.concat_eq_append] at h hkept ⊢ habs hnames
  have hlast := h last (by simp)
  have htext : (root :: (init ++ [last])).filter (!·.isEmpty) =
      (root :: init).filter (!·.isEmpty) ++ [last] := by
    have hkeep : [last].filter (!·.isEmpty) = [last] := filter_steps (by simpa using hlast)
    rw [← List.cons_append, List.filter_append, hkeep]
  rw [join_eq_normalize, normalize_eq_along, habs, hnames, hkept]
  · rw [htext]
    exact glue_ne_empty _ hlast.1
  · rw [htext]
    exact endsWithSeparator_glue _ hlast
  · rw [habs, hnames, hkept]
    simp

/-- A path with names behind it ends in the last of them. -/
theorem join_plain (root : String) (hne : packages ≠ []) (h : ∀ name ∈ packages, IsStep name) :
    join (root :: packages) ≠ "" ∧ endsWithSeparator (join (root :: packages)) = false := by
  rw [join_steps root hne h]
  obtain ⟨init, last, rfl⟩ := List.eq_nil_or_concat packages |>.resolve_left hne
  rw [List.concat_eq_append] at h ⊢
  have hlast := h last (by simp)
  rw [← List.append_assoc, along, endsWithSeparator_append_of_ne _ (glue_ne_empty _ hlast.1)]
  exact ⟨fun heq => glue_ne_empty _ hlast.1 (String.append_eq_empty_iff.mp heq).2,
    endsWithSeparator_glue _ hlast⟩

/-- A name is joined to a path with names as it is joined to the names. -/
theorem join_join (root : String) (h : ∀ name ∈ packages, IsStep name) (hname : IsStep name) :
    join [join (root :: packages), name] = join (root :: (packages ++ [name])) := by
  obtain ⟨habs, hnames⟩ := glue_root root h
  obtain ⟨habs', hnames'⟩ :=
    normalNames_normalize (glue ((root :: packages).filter (!·.isEmpty)))
  rw [← join_eq_normalize, habs, hnames, normalNames_append _ _ h] at hnames'
  rw [← join_eq_normalize, habs] at habs'
  rw [join_steps _ (by simp) (by simpa using hname), habs', hnames', join_steps root (by simp),
    List.append_assoc]
  intro n hn
  rcases List.mem_append.mp hn with hn | hn
  · exact h n hn
  · exact List.mem_singleton.mp hn ▸ hname

/-- More names go on behind the first ones. -/
theorem join_append (root : String) (hne : packages ≠ [])
    (h : ∀ name ∈ packages ++ more, IsStep name) :
    join (root :: (packages ++ more)) = under (join (root :: packages)) more := by
  by_cases hmore : more = []
  · subst hmore
    rw [List.append_nil]
    rfl
  · rw [under_eq _ hmore, join_steps root hne fun n hn => h n (List.mem_append_left _ hn),
      join_steps root (by simp [hne]) h, along, along, ← List.append_assoc,
      glue_append (by simp [hne]) hmore]
    simp only [String.append_assoc]

/-- The folder of a name that is joined to a path. -/
theorem directory_join_eq (root : String) (hname : IsStep name) :
    directory (join [root, name]) = along (isAbsolute root)
      (if normalNames (isAbsolute root) (names root) = [] ∧ isAbsolute root = false then ["."]
        else normalNames (isAbsolute root) (names root)) := by
  rw [join_steps root (by simp) (by simpa using hname)]
  refine directory_along _ fun n hn => ?_
  rcases List.mem_append.mp hn with hn | hn
  · exact mem_normalNames_names _ hn
  · exact List.mem_singleton.mp hn ▸ ⟨hname.1, hname.2.2.2⟩

/-- If a path with a name is, as text, in the place of another path with that name, then the other
path goes on from the first one with steps. -/
theorem steps_of_inside {other : String} (hname : IsStep name)
    (h : (join [root, name] ++ "/").toList <+: (join [other, name]).toList) :
    isAbsolute other = isAbsolute root ∧ ∃ tail, (∀ n ∈ tail, IsStep n) ∧
      normalNames (isAbsolute other) (names other) =
        normalNames (isAbsolute root) (names root) ++ tail := by
  have hplain (path : String) : ∀ n ∈ normalNames (isAbsolute path) (names path) ++ [name],
      n ≠ "" ∧ '/' ∉ n.toList := by
    intro n hn
    rcases List.mem_append.mp hn with hn | hn
    · exact mem_normalNames_names _ hn
    · exact List.mem_singleton.mp hn ▸ ⟨hname.1, hname.2.2.2⟩
  have hjoin (path : String) : isAbsolute (join [path, name]) = isAbsolute path ∧
      names (join [path, name]) = normalNames (isAbsolute path) (names path) ++ [name] := by
    rw [join_steps path (by simp) (by simpa using hname)]
    exact ⟨isAbsolute_along _ (hplain path), names_along _ (hplain path)⟩
  obtain ⟨text, htext⟩ := h
  have heq : join [other, name] = join [root, name] ++ "/" ++ String.ofList text := by
    rw [← String.toList_inj, String.toList_append, String.toList_ofList, htext]
  have habs : isAbsolute other = isAbsolute root := by
    rw [← (hjoin other).1, heq, String.append_assoc,
      isAbsolute_append_of_ne (join_plain root (by simp) (by simpa using hname)).1, (hjoin root).1]
  refine ⟨habs, ?_⟩
  have hnames : normalNames (isAbsolute other) (names other) ++ [name] =
      normalNames (isAbsolute root) (names root) ++ name :: names (String.ofList text) := by
    rw [← (hjoin other).2, heq, names_append_slash, (hjoin root).2, List.append_assoc]
    rfl
  rcases List.eq_nil_or_concat (names (String.ofList text)) with hnil | ⟨init, last, hmore⟩
  · rw [hnil] at hnames
    exact ⟨[], nofun, by rw [List.append_nil]; exact List.append_cancel_right hnames⟩
  · rw [hmore, List.concat_eq_append, ← List.cons_append, ← List.append_assoc] at hnames
    have hkept := List.append_inj_left' hnames rfl
    refine ⟨name :: init, fun n hn => ?_, hkept⟩
    have hsettled : Settled (isAbsolute other) (normalNames (isAbsolute other) (names other)) :=
      settled_normalNames _ fun n hn => mem_names hn
    rw [hkept] at hsettled
    rcases List.mem_cons.mp hn with rfl | hn
    · exact hname
    · exact hsettled.isStep_behind hname n hn

/-- Names behind an absolute path give a normal path. -/
theorem join_isNormal (habs : isAbsolute root = true) (hne : packages ≠ [])
    (h : ∀ name ∈ packages, IsStep name) : IsNormal (join (root :: packages)) := by
  rw [join_steps root hne h, habs]
  refine ⟨_, List.append_ne_nil_of_right_ne_nil _ hne, fun name hname => ?_, rfl⟩
  rcases List.mem_append.mp hname with hname | hname
  · exact isStep_of_mem_normalNames (fun _ => mem_names) hname
  · exact h name hname

/-! ### Absolute forms -/

theorem names_resolve (habs : isAbsolute path = true) (current : String) :
    names (resolve current path) = normalNames true (names path) := by
  rw [resolve, if_pos habs]
  exact names_ofNames fun name hname => isStep_of_mem_normalNames (fun _ => mem_names) hname

/-- It does not matter whether the current folder is in normal form. -/
theorem resolve_resolve (habs : isAbsolute root = true) (current path : String) :
    resolve (resolve current root) path = resolve root path := by
  have hresolve (current : String) : resolve current path =
      "/" ++ glue (normalNames true
        (if isAbsolute path then names path else names current ++ names path)) := rfl
  rw [hresolve, hresolve, names_resolve habs]
  split
  · rfl
  · rw [normalNames_normalNames_append true _ fun _ => mem_names]

theorem resolve_fixed (current other path : String) :
    resolve current (resolve other path) = resolve other path := by
  rcases resolve_isNormal other path with heq | hnormal
  · rw [heq]
    rfl
  · exact hnormal.resolve_eq current

theorem isAbsolute_resolve (current path : String) : isAbsolute (resolve current path) = true :=
  isAbsolute_append (by decide) _

/-! ### A name in an absolute folder -/

/-- A path with a separator at its end. -/
def closed (path : String) : String := if endsWithSeparator path then path else path ++ "/"

theorem closed_closed (path : String) : closed (closed path) = closed path := by
  have hend : endsWithSeparator (closed path) = true := by
    rw [closed]
    split
    · assumption
    · rw [endsWithSeparator_append_of_ne _ (by decide)]
      rfl
  rw [closed, if_pos hend]

theorem IsNormal.closed_eq (h : IsNormal path) : closed path = path ++ "/" := by
  rw [closed, h.endsWithSeparator, if_neg Bool.false_ne_true]

/-- The normal form of an absolute path is its absolute form, except that it may end in a
separator. -/
theorem normalize_of_isAbsolute (habs : isAbsolute root = true) (current : String) :
    normalize root = resolve current root ∨ normalize root = closed (resolve current root) := by
  have hne : root ≠ "" := by
    rintro rfl
    exact absurd habs (by decide)
  rw [normalize, habs, if_neg (by simpa using hne)]
  simp only [if_true]
  rw [← names_resolve habs current]
  rcases resolve_isNormal current root with heq | hnormal
  · rw [heq]
    exact .inl rfl
  · have hglue : "/" ++ glue (names (resolve current root)) = resolve current root :=
      hnormal.ofNames_names
    rw [if_neg (by simpa using hnormal.names_ne_nil), hglue, hnormal.closed_eq]
    split
    · exact .inr rfl
    · exact .inl String.append_empty

theorem closed_normalize (habs : isAbsolute root = true) (current : String) :
    closed (normalize root) = closed (resolve current root) := by
  rcases normalize_of_isAbsolute habs current with heq | heq
  · rw [heq]
  · rw [heq, closed_closed]

/-- A name that is joined to an absolute path stands behind the names of its absolute form. -/
theorem join_eq_ofNames (habs : isAbsolute root = true) (hname : IsStep name) (current : String) :
    join [root, name] = ofNames (names (resolve current root) ++ [name]) := by
  rw [names_resolve habs, join_steps root (by simp) (by simpa using hname), habs]
  rfl

theorem isAbsolute_join (habs : isAbsolute root = true) (hname : IsStep name) :
    isAbsolute (join [root, name]) = true := by
  rw [join_eq_ofNames habs hname "/"]
  exact isAbsolute_append (by decide) _

theorem names_join (habs : isAbsolute root = true) (hname : IsStep name) (current : String) :
    names (join [root, name]) = names (resolve current root) ++ [name] := by
  rw [join_eq_ofNames habs hname current, names_resolve habs]
  refine names_ofNames fun n hn => ?_
  rcases List.mem_append.mp hn with hn | hn
  · exact isStep_of_mem_normalNames (fun _ => mem_names) hn
  · exact List.mem_singleton.mp hn ▸ hname

theorem join_eq_closed (habs : isAbsolute root = true) (hname : IsStep name) :
    join [root, name] = closed (normalize root) ++ name := by
  rw [closed_normalize habs "/", join_eq_ofNames habs hname "/"]
  rcases resolve_isNormal "/" root with heq | hnormal
  · rw [heq]
    rfl
  · rw [ofNames_concat hnormal.names_ne_nil, hnormal.ofNames_names, hnormal.closed_eq]

theorem directory_join (habs : isAbsolute root = true) (hname : IsStep name) (current : String) :
    directory (join [root, name]) = resolve current root := by
  rcases resolve_isNormal current root with heq | hnormal
  · rw [directory, names_join habs hname current, List.dropLast_concat, isAbsolute_join habs hname,
      heq]
    rfl
  · rw [join_eq_ofNames habs hname current, ofNames_concat hnormal.names_ne_nil,
      hnormal.ofNames_names, hnormal.directory_child hname]

end ScriptPack.Path

import ScriptPack.Proofs.FileSystem.Folder

/-!
Making the folders of a path. Either nothing is made, because the folders are there or because
something else is in their way, or the missing ones are made: once one of them is free, so are all
behind it.
-/

namespace ScriptPack

open Node Lookup

/-- Nothing but a location and folders above it was added. -/
structure Node.Adds (root root' : Node) (loc : Location) : Prop where
  wellFormed : root'.WellFormed
  keeps : Keeps root root'
  same : ∀ other node, root.at? other = some node → ¬other <+: loc → root'.at? other = some node

namespace Node.Adds

variable {root root' root'' : Node} {loc loc' : Location}

theorem refl (h : root.WellFormed) (loc : Location) : Adds root root loc :=
  ⟨h, .refl root, fun _ _ hn _ => hn⟩

theorem trans (h : Adds root root' loc) (h' : Adds root' root'' loc) : Adds root root'' loc :=
  ⟨h'.wellFormed, h.keeps.trans h'.keeps,
    fun other node hn hp => h'.same other node (h.same other node hn hp) hp⟩

theorem put (h : root.WellFormed) (hn : root.at? loc = none) (hloc : ∀ name ∈ loc, IsName name)
    (hp : loc <+: loc') : Adds root (put loc .empty root) loc' := by
  refine ⟨h.put hloc wellFormed_empty, Keeps.put_of_none h hn, fun other node ho hother => ?_⟩
  have hle : ¬loc <+: other := by
    rintro ⟨tail, rfl⟩
    rw [at?_append, hn] at ho
    cases ho
  rw [Node.put, at?_alter_apart h hle fun hother' => hother (hother'.trans hp), ho]

end Node.Adds

/-- Folders were made up to the one to which a path now leads. -/
structure Node.Makes (root root' : Node) (path : String) (loc : Location) : Prop
    extends Adds root root' loc where
  fresh : root.at? loc = none
  leads : Leads root' path loc []

namespace Files

open Effect

variable {w : World} {path name : String} {rest : List String} {loc : Location}
  {entries : List (String × Node)}

/-- The empty path or one from the root on. -/
def IsRooted (path : String) : Prop := path = "" ∨ Path.isAbsolute path = true

theorem IsRooted.isAbsolute_under (h : IsRooted path) (name : String) :
    Path.isAbsolute (path ++ "/" ++ name) = true := by
  rcases h with rfl | h
  · exact Path.isAbsolute_append (show Path.isAbsolute ("" ++ "/") = true from rfl) name
  · rw [String.append_assoc]
    exact Path.isAbsolute_append h _

theorem IsRooted.under (h : IsRooted path) (name : String) : IsRooted (path ++ "/" ++ name) :=
  .inr (h.isAbsolute_under name)

theorem IsRooted.absolute_eq (h : IsRooted path) (name : String) :
    absolute w (path ++ "/" ++ name) = path ++ "/" ++ name :=
  absolute_of_isAbsolute (h.isAbsolute_under name)

theorem plain_of_step (hn : name = "." ∨ IsName name) : name ≠ "" ∧ '/' ∉ name.toList := by
  rcases hn with rfl | hn
  · decide
  · exact ⟨hn.1, hn.2.2.2.1⟩

theorem append_slash_ne_empty (path name : String) : path ++ "/" ++ name ≠ "" := by
  simp

theorem makeFoldersFrom_folder {loc' : Location} {entries' : List (String × Node)}
    (hp : IsRooted path) (hn : name ≠ "" ∧ '/' ∉ name.toList)
    (h : Leads w.root (path ++ "/" ++ name) loc' entries') :
    makeFoldersFrom path (name :: rest) w = makeFoldersFrom (path ++ "/" ++ name) rest w := by
  have hplace := h.place?_eq (append_slash_ne_empty path name) (Path.endsWithSeparator_under path hn)
  rw [← hp.absolute_eq (w := w)] at hplace
  rw [makeFoldersFrom, bind_ok (lookup_ok hplace)]

theorem makeFoldersFrom_free (hp : IsRooted path)
    (h : ∀ follow, place? w.root follow (path ++ "/" ++ name) = .ok (.free loc)) :
    makeFoldersFrom path (name :: rest) w =
      (do putStep loc .empty; makeFoldersFrom (path ++ "/" ++ name) rest) w := by
  rw [← hp.absolute_eq (w := w)] at h
  rw [makeFoldersFrom, bind_ok (lookup_ok (h true))]
  simp only
  rw [bind_ok (lookup_ok (h false))]

/-- In an empty folder all further folders can be made. -/
theorem makeFoldersFrom_fresh (hs : w.stepsLeft = none) (hw : w.root.WellFormed)
    (hp : IsRooted path) (h : Leads w.root path loc []) (hn : ∀ n ∈ rest, n = "." ∨ IsName n) :
    ∃ root' loc', Does (makeFoldersFrom path rest) w () root' ∧ Adds w.root root' loc' ∧
      Leads root' (Path.under path rest) loc' [] ∧ loc <+: loc' ∧
      ((∀ n ∈ rest, IsName n) → loc' = loc ++ rest ∧
        (Holds w.root path loc [] → Holds root' (Path.under path rest) loc' [])) := by
  induction rest generalizing path loc w with
  | nil =>
      exact ⟨w.root, loc, does_pure () w, .refl hw loc, h, List.prefix_refl loc,
        fun _ => ⟨(List.append_nil loc).symm, id⟩⟩
  | cons name rest ih =>
      have hrest := fun n hmem => hn n (List.mem_cons_of_mem _ hmem)
      rcases hn name List.mem_cons_self with rfl | hname
      · obtain ⟨root', loc', hx, ha, hl, hpre, -⟩ := ih hs hw (hp.under ".") h.dot hrest
        refine ⟨root', loc', ?_, ha, hl, hpre, fun hall => ?_⟩
        · rw [Does, makeFoldersFrom_folder hp (plain_of_step (.inl rfl)) h.dot]
          exact hx
        · exact absurd (hall "." List.mem_cons_self) (by decide)
      · have hfree (follow) := h.free_child hname List.lookup_nil follow
        have hnone := at?_of_place?_free (hfree false)
        have hloc : ∀ n ∈ loc ++ [name], IsName n := by
          intro n hmem
          rcases List.mem_append.mp hmem with hmem | hmem
          · exact hw.isName_of_mem h.at?_eq hmem
          · rw [List.mem_singleton.mp hmem]
            exact hname
        obtain ⟨w₁, hput, he⟩ := putStep_does hs (loc ++ [name]) .empty
        have hw₁ : w₁.root.WellFormed := by
          rw [he.root_eq]
          exact hw.put hloc wellFormed_empty
        have hholds : Holds w₁.root (path ++ "/" ++ name) (loc ++ [name]) [] := by
          rw [he.root_eq]
          exact .of_free hw (hfree false) []
        have hleads := hholds.leads hw₁ (Path.endsWithSeparator_under path (plain_of_step (.inr hname)))
        obtain ⟨root', loc', hx, ha, hl, hpre, hall⟩ :=
          ih (he.stepsLeft_eq.trans hs) hw₁ (hp.under name) hleads hrest
        refine ⟨root', loc', ?_, ?_, hl, (List.prefix_append _ _).trans hpre, fun hsteps => ?_⟩
        · rw [Does, makeFoldersFrom_free hp hfree, bind_ok hput]
          obtain ⟨w₂, hx, he'⟩ := hx
          exact ⟨w₂, hx, he.trans he'⟩
        · have hadds := Adds.put hw hnone hloc hpre
          rw [← he.root_eq] at hadds
          exact hadds.trans ha
        · obtain ⟨heq, hh⟩ := hall fun n hmem => hsteps n (List.mem_cons_of_mem _ hmem)
          exact ⟨by rw [heq, List.append_assoc]; rfl, fun _ => hh hholds⟩

/-- Folders of a path that are there already are passed by. -/
theorem makeFoldersFrom_append (hp : IsRooted path) (hnul : '\x00' ∉ path.toList)
    {there : List String} (hn : ∀ n ∈ there, n ≠ "" ∧ '/' ∉ n.toList ∧ '\x00' ∉ n.toList)
    (h : walk w.root true linkLimit [] (Path.names path ++ there) =
      .ok (.found loc (.folder entries))) :
    makeFoldersFrom path (there ++ rest) w = makeFoldersFrom (Path.under path there) rest w := by
  induction there generalizing path with
  | nil => rfl
  | cons name there ih =>
      obtain ⟨hne, hslash, hnul'⟩ := hn name List.mem_cons_self
      have hroot := isFolderAt_nil (walk_fits h)
      have hhere : IsFolderAt w.root ([] : List String).reverse := hroot
      have hnames : Path.names (path ++ "/" ++ name) = Path.names path ++ [name] := by
        rw [Path.names_append_slash, Path.names_eq_singleton hne hslash]
      rw [List.append_cons, ← hnames] at h
      have hleads : ∃ loc' entries', Leads w.root (path ++ "/" ++ name) loc' entries' := by
        have hnul'' : '\x00' ∉ (path ++ "/" ++ name).toList := by
          simp only [String.toList_append, List.mem_append, not_or]
          exact ⟨⟨hnul, by decide⟩, hnul'⟩
        by_cases hr : there = []
        · subst hr
          rw [List.append_nil] at h
          exact ⟨loc, entries, h, hnul''⟩
        · obtain ⟨loc', entries', hl⟩ := walk_beginning hr hroot hhere h
          exact ⟨loc', entries', hl, hnul''⟩
      obtain ⟨loc', entries', hl⟩ := hleads
      rw [List.cons_append, makeFoldersFrom_folder hp ⟨hne, hslash⟩ hl]
      exact ih (hp.under name) hl.2 (fun n hmem => hn n (List.mem_cons_of_mem _ hmem)) h

/-- A step from a folder that leads to a free place is a name that is not there. -/
theorem free_of_place? {loc' : Location} (hw : w.root.WellFormed)
    (h : Leads w.root path loc entries) (hn : name = "." ∨ IsName name)
    (hl : place? w.root false (path ++ "/" ++ name) = .ok (.free loc')) :
    IsName name ∧ entries.lookup name = none := by
  rcases hn with rfl | hn
  · have hdot := h.dot
    obtain ⟨links, hwalk⟩ := walk_append h.1
    have hpl := (place?_eq_walk hl).1
    rw [steps, Path.endsWithSeparator_under path (by decide), Path.names_append_slash,
      show Path.names "." = ["."] from rfl] at hpl
    simp only [Bool.false_eq_true, if_false, List.append_nil] at hpl
    rw [hwalk false ["."] (by simp)] at hpl
    have hlast (jump) : walkWith jump w.root false loc.reverse ["."] =
        .ok (.found loc (.folder entries)) := by
      rw [walkWith_dot, walkWith, List.reverse_reverse, h.at?_eq]
    cases links <;> cases (hlast _).symm.trans hpl
  · refine ⟨hn, ?_⟩
    cases hlook : entries.lookup name with
    | none => rfl
    | some node => cases (h.found_child hlook hw false (by simp)).symm.trans hl

/-- Once a name is free, folders are made for it and for all names behind it. -/
theorem makeFoldersFrom_missing (hs : w.stepsLeft = none) (hw : w.root.WellFormed)
    (hp : IsRooted path) (h : Leads w.root path loc entries) (hname : IsName name)
    (hl : entries.lookup name = none) (hn : ∀ n ∈ rest, n = "." ∨ IsName n) :
    ∃ root' loc', Does (makeFoldersFrom path (name :: rest)) w () root' ∧
      Makes w.root root' (Path.under path (name :: rest)) loc' ∧
      ((∀ n ∈ name :: rest, IsName n) → Holds root' (Path.under path (name :: rest)) loc' [] ∧
        canonicalFrom w.root linkLimit [] (Path.names path ++ name :: rest) = loc') := by
  have hfree (follow) := h.free_child hname hl follow
  have hnone := at?_of_place?_free (hfree false)
  have hmem : ∀ n ∈ loc, IsName n := fun n hmem => hw.isName_of_mem h.at?_eq hmem
  have hloc : ∀ n ∈ loc ++ [name], IsName n := by
    intro n hn'
    rcases List.mem_append.mp hn' with hn' | hn'
    · exact hmem n hn'
    · rw [List.mem_singleton.mp hn']
      exact hname
  obtain ⟨w₁, hput, he⟩ := putStep_does hs (loc ++ [name]) .empty
  have hholds : Holds w₁.root (path ++ "/" ++ name) (loc ++ [name]) [] := by
    rw [he.root_eq]
    exact .of_free hw (hfree false) []
  have hw₁ : w₁.root.WellFormed := by
    rw [he.root_eq]
    exact hw.put hloc wellFormed_empty
  have hleads := hholds.leads hw₁ (Path.endsWithSeparator_under path (plain_of_step (.inr hname)))
  obtain ⟨root', loc', ⟨w₂, hx, he'⟩, ha, hleads', hpre, hall⟩ :=
    makeFoldersFrom_fresh (he.stepsLeft_eq.trans hs) hw₁ (hp.under name) hleads hn
  have hadds := Adds.put hw hnone hloc hpre
  rw [← he.root_eq] at hadds
  refine ⟨root', loc', ⟨w₂, ?_, he.trans he'⟩, ⟨hadds.trans ha, ?_, hleads'⟩, fun hsteps => ?_⟩
  · rw [makeFoldersFrom_free hp hfree, bind_ok hput]
    exact hx
  · obtain ⟨tail, rfl⟩ := hpre
    rw [at?_append, hnone]
    rfl
  · obtain ⟨rfl, hh⟩ := hall fun n hn' => hsteps n (List.mem_cons_of_mem _ hn')
    obtain ⟨links, hc⟩ := canonicalFrom_append (name :: rest) h.1
    refine ⟨hh hholds, ?_⟩
    rw [hc, canonicalFrom_free (fun n hn' => isStep_of_isName (hsteps n hn'))
      (fun n hn' => isStep_of_isName (hmem n hn')) hnone, List.append_assoc]
    rfl

/-- Making folders fails and changes nothing, or finds them all, or makes the missing ones. -/
theorem makeFoldersFrom_cases (hs : w.stepsLeft = none) (hw : w.root.WellFormed)
    (hp : IsRooted path) (h : Leads w.root path loc entries)
    (hn : ∀ n ∈ rest, n = "." ∨ IsName n) :
    (∃ failure, makeFoldersFrom path rest w = (.error (.failed failure), w)) ∨
    (makeFoldersFrom path rest w = (.ok (), w) ∧
      ∃ loc' entries', Leads w.root (Path.under path rest) loc' entries') ∨
    ∃ root' loc', Does (makeFoldersFrom path rest) w () root' ∧
      Makes w.root root' (Path.under path rest) loc' ∧
      ((∀ n ∈ rest, IsName n) → Holds root' (Path.under path rest) loc' [] ∧
        canonicalFrom w.root linkLimit [] (Path.names path ++ rest) = loc') := by
  induction rest generalizing path loc entries with
  | nil => exact .inr (.inl ⟨rfl, loc, entries, h⟩)
  | cons name rest ih =>
      have hrest := fun n hmem => hn n (List.mem_cons_of_mem _ hmem)
      have hplain := plain_of_step (hn name List.mem_cons_self)
      have hsep := Path.endsWithSeparator_under path hplain
      have hnames : Path.names (path ++ "/" ++ name) = Path.names path ++ [name] := by
        rw [Path.names_append_slash, Path.names_eq_singleton hplain.1 hplain.2]
      cases hl : place? w.root true (path ++ "/" ++ name) with
      | error error =>
          rw [← hp.absolute_eq (w := w)] at hl
          exact .inl ⟨_, by rw [makeFoldersFrom, bind_error (lookup_error hl)]⟩
      | ok place =>
          have hlookup := hl
          rw [← hp.absolute_eq (w := w)] at hlookup
          cases place with
          | found loc' node =>
              cases node with
              | file content modified =>
                  refine .inl ⟨.system (if rest.isEmpty then .alreadyExists else .notDirectory), ?_⟩
                  rw [makeFoldersFrom, bind_ok (lookup_ok hlookup)]
                  rfl
              | link target =>
                  refine .inl ⟨.system (if rest.isEmpty then .alreadyExists else .notDirectory), ?_⟩
                  rw [makeFoldersFrom, bind_ok (lookup_ok hlookup)]
                  rfl
              | folder entries' =>
                  have hleads := Leads.of_place? hsep hl
                  rw [makeFoldersFrom_folder hp hplain hleads]
                  have hih := ih (hp.under name) hleads hrest
                  rw [hnames, List.append_assoc] at hih
                  rcases hih with hf | hf | ⟨root', loc'', hx, hm, hall⟩
                  · exact .inl hf
                  · exact .inr (.inl hf)
                  · rw [Does, ← makeFoldersFrom_folder hp hplain hleads] at hx
                    exact .inr (.inr ⟨root', loc'', hx, hm,
                      fun hsteps => hall fun n hmem => hsteps n (List.mem_cons_of_mem _ hmem)⟩)
          | free loc' =>
              cases hl' : place? w.root false (path ++ "/" ++ name) with
              | error error =>
                  rw [← hp.absolute_eq (w := w)] at hl'
                  refine .inl ⟨.system error, ?_⟩
                  rw [makeFoldersFrom, bind_ok (lookup_ok hlookup)]
                  simp only
                  rw [bind_error (lookup_error hl')]
              | ok place' =>
                  cases place' with
                  | found loc'' node =>
                      rw [← hp.absolute_eq (w := w)] at hl'
                      refine .inl ⟨.system .noEntry, ?_⟩
                      rw [makeFoldersFrom, bind_ok (lookup_ok hlookup)]
                      simp only
                      rw [bind_ok (lookup_ok hl')]
                      rfl
                  | free loc'' =>
                      obtain ⟨hname, hlook⟩ := free_of_place? hw h (hn name List.mem_cons_self) hl'
                      exact .inr (.inr (makeFoldersFrom_missing hs hw hp h hname hlook hrest))

theorem leads_root (h : IsFolderAt w.root []) : ∃ entries, Leads w.root "" [] entries := by
  obtain ⟨entries, he⟩ := h
  rw [at?_nil, Option.some.injEq] at he
  refine ⟨entries, ?_, by decide⟩
  rw [show Path.names "" = [] from rfl, linkLimit, walk, walkWith, List.reverse_nil, at?_nil, he]

theorem not_mem_of_absolute {c : Char} (h : c ∉ (absolute w path).toList) : c ∉ path.toList := by
  rw [absolute] at h
  split at h
  · exact h
  · simp only [String.toList_append, List.mem_append, not_or] at h
    exact h.2

theorem makeFolders_eq (hne : path ≠ "") (hnul : '\x00' ∉ path.toList) :
    makeFolders path w = makeFoldersFrom "" (Path.names (absolute w path)) w := by
  rw [makeFolders, bind_ok (get_apply w), if_neg (by simpa using hne), if_neg (by simpa using hnul)]

theorem makeFolders_of_leads (hne : path ≠ "")
    (h : Leads w.root (absolute w path) loc entries) : makeFolders path w = (.ok (), w) := by
  rw [makeFolders_eq hne (not_mem_of_absolute h.2), ← List.append_nil (Path.names _),
    makeFoldersFrom_append (.inl rfl) (by decide) h.plain_names h.1]
  rfl

theorem isRooted_under (all : List String) : IsRooted (Path.under "" all) := by
  by_cases h : all = []
  · exact .inl (by rw [h]; rfl)
  · right
    rw [Path.under_eq "" h, String.append_assoc, String.empty_append]
    exact Path.isAbsolute_append (show Path.isAbsolute "/" = true from rfl) _

/-- A folder at a free place is made. -/
theorem makeFolders_free (hs : w.stepsLeft = none) (hw : w.root.WellFormed)
    (hroot : IsFolderAt w.root []) (hd : Path.IsNormal path)
    (h : place? w.root false path = .ok (.free loc)) :
    Does (makeFolders path) w () (put loc .empty w.root) := by
  obtain ⟨init, name, hnames⟩ := List.eq_nil_or_concat _ |>.resolve_left hd.names_ne_nil
  rw [List.concat_eq_append] at hnames
  have hnul := (place?_eq_walk h).2
  have hmem : name ∈ Path.names path := by simp [hnames]
  have hstep := hd.isStep hmem
  have hname : IsName name := ⟨hstep.1, hstep.2.1, hstep.2.2.1, hstep.2.2.2,
    fun hc => hnul (Path.mem_of_mem_names hmem hc)⟩
  have hinit : Path.names (Path.under "" init) = init := by
    refine Path.names_under fun n hn => ?_
    have hin : n ∈ Path.names path := by simp [hnames, hn]
    exact Path.mem_names hin
  have hpath : Path.under "" init ++ "/" ++ name = path := by
    rw [← Path.under_concat, ← hnames, hd.under_names]
  rw [← hpath] at h
  obtain ⟨parent, entries, hl⟩ := Leads.of_child hroot hstep h
  have hfree := hl.free_child hname (free_of_place? hw hl (.inr hname) h).2
  cases h.symm.trans (hfree false)
  have hplain := hl.plain_names
  have hwalk := hl.1
  rw [hinit] at hplain hwalk
  rw [Does, makeFolders_eq hd.ne_empty hnul, absolute_normal hd, hnames,
    makeFoldersFrom_append (.inl rfl) (by decide) hplain hwalk,
    makeFoldersFrom_free (isRooted_under init) hfree]
  exact (putStep_does hs _ _).bind fun w' he => by
    rw [← he.root_eq]
    exact does_pure () w'

/-- A folder that is missing in a folder that is held. -/
theorem makeFolders_child {dir : String} (hs : w.stepsLeft = none) (hw : w.root.WellFormed)
    (hd : Path.IsNormal dir) (h : Holds w.root dir loc entries) (hn : IsName name)
    (hl : entries.lookup name = none) :
    Does (makeFolders (dir ++ "/" ++ name)) w () (put (loc ++ [name]) .empty w.root) :=
  makeFolders_free hs hw (isFolderAt_nil h.at?_eq) (hd.child (isStep_of_isName hn))
    ((h.leads hw hd.endsWithSeparator).free_child hn hl false)

theorem not_mem_absolute {c : Char} (hne : c ≠ '/') (hp : c ∉ path.toList)
    (hc : c ∉ w.workingDirectory.toList) : c ∉ (absolute w path).toList := by
  rw [absolute]
  split
  · exact hp
  · have hslash : ("/" : String).toList = ['/'] := rfl
    simp only [String.toList_append, List.mem_append, not_or, hslash, List.mem_singleton]
    exact ⟨⟨hc, hne⟩, hp⟩

/-- For a path without steps up: nothing changes, or all missing folders are made. -/
theorem makeFolders_cases (hs : w.stepsLeft = none) (hw : w.root.WellFormed)
    (hroot : IsFolderAt w.root []) (hc : '\x00' ∉ w.workingDirectory.toList)
    (hn : ".." ∉ Path.names (absolute w path)) :
    (∃ failure, makeFolders path w = (.error (.failed failure), w)) ∨
    (makeFolders path w = (.ok (), w) ∧
      ∃ loc entries, Leads w.root (absolute w path) loc entries) ∨
    ∃ root' loc, Does (makeFolders path) w () root' ∧
      Makes w.root root' (absolute w path) loc ∧
      (Path.IsNormal path → Holds root' path loc [] ∧
        canonicalFrom w.root linkLimit [] (Path.names path) = loc) := by
  by_cases hne : path = ""
  · subst hne
    exact .inl ⟨_, rfl⟩
  by_cases hnul : '\x00' ∈ path.toList
  · refine .inl ⟨.system .badPath, ?_⟩
    rw [makeFolders, bind_ok (get_apply w), if_neg (by simpa using hne),
      if_pos (by simpa using hnul)]
    rfl
  have hnul' := not_mem_absolute (by decide) hnul hc
  have hx : makeFolders path w = makeFoldersFrom "" (Path.names (absolute w path)) w :=
    makeFolders_eq hne hnul
  have hnames : ∀ n ∈ Path.names (absolute w path), n = "." ∨ IsName n := by
    intro n hmem
    obtain ⟨hne', hs'⟩ := Path.mem_names hmem
    by_cases hdot : n = "."
    · exact .inl hdot
    · exact .inr ⟨hne', hdot, fun hdots => hn (hdots ▸ hmem), hs',
        fun hn' => hnul' (Path.mem_of_mem_names hmem hn')⟩
  have hunder : Path.names (Path.under "" (Path.names (absolute w path))) =
      Path.names (absolute w path) := Path.names_under fun n => Path.mem_names
  obtain ⟨entries, hl⟩ := leads_root hroot
  rcases makeFoldersFrom_cases hs hw (.inl rfl) hl hnames with
    hf | ⟨hok, loc, entries', hl'⟩ | ⟨root', loc, hd, hm, hall⟩
  · rw [← hx] at hf
    exact .inl hf
  · rw [← hx] at hok
    exact .inr (.inl ⟨hok, loc, entries', hl'.congr hunder hnul'⟩)
  · obtain ⟨w', hd, he⟩ := hd
    rw [← hx] at hd
    refine .inr (.inr ⟨root', loc, ⟨w', hd, he⟩,
      ⟨hm.toAdds, hm.fresh, hm.leads.congr hunder hnul'⟩, fun hnormal => ?_⟩)
    rw [absolute_normal hnormal] at hall hnul'
    obtain ⟨hh, hcanon⟩ := hall fun n hmem => by
      have hstep := hnormal.isStep hmem
      exact ⟨hstep.1, hstep.2.1, hstep.2.2.1, hstep.2.2.2,
        fun hn' => hnul' (Path.mem_of_mem_names hmem hn')⟩
    rw [hnormal.under_names] at hh
    exact ⟨hh, hcanon⟩

end Files

end ScriptPack

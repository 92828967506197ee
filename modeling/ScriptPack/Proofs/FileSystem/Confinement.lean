import ScriptPack.Proofs.FileSystem.Frame

/-!
Work on one location. What is beside it stays as it is, and what is above it stays too, apart from
folders that were missing on the way.
-/

namespace ScriptPack

open Node Lookup Effect

/-- Nothing but a location has changed, and nothing was made for it but folders above it. -/
structure Node.Confined (loc : Location) (root root' : Node) : Prop where
  before : root.WellFormed
  after : root'.WellFormed
  /-- What is neither at the location nor above it is what it was. -/
  aside : ∀ other, ¬loc <+: other → ¬other <+: loc → root'.at? other = root.at? other
  /-- What is above the location is what it was, or a folder where nothing was. -/
  above : ∀ other, other <+: loc → other ≠ loc →
    (root'.at? other).map bare = (root.at? other).map bare ∨
      root.at? other = none ∧ IsFolderAt root' other

namespace Node

variable {root root' root'' node : Node} {loc loc' other : Location}

theorem isFolderAt_of_bare_eq (h : IsFolderAt root loc)
    (heq : (root'.at? loc).map bare = (root.at? loc).map bare) : IsFolderAt root' loc := by
  obtain ⟨entries, hat⟩ := h
  rw [hat] at heq
  cases hat' : root'.at? loc with
  | none => rw [hat'] at heq; cases heq
  | some node =>
      rw [hat'] at heq
      cases node with
      | folder entries' => exact ⟨entries', hat'⟩
      | file content modified => cases heq
      | link target => cases heq

theorem link_of_bare_eq {target : String}
    (heq : (root'.at? loc).map bare = (root.at? loc).map bare)
    (hat : root'.at? loc = some (.link target)) : root.at? loc = some (.link target) := by
  rw [hat] at heq
  cases hbefore : root.at? loc with
  | none => rw [hbefore] at heq; cases heq
  | some node =>
      rw [hbefore] at heq
      cases node with
      | file content modified => cases heq
      | folder below => cases heq
      | link aim => cases heq; rfl

namespace Confined

theorem refl (h : root.WellFormed) (loc : Location) : Confined loc root root :=
  ⟨h, h, fun _ _ _ => rfl, fun _ _ _ => .inl rfl⟩

theorem trans (h : Confined loc root root') (h' : Confined loc root' root'') :
    Confined loc root root'' := by
  refine ⟨h.before, h'.after, fun other hp hp' => ?_, fun other hp hne => ?_⟩
  · rw [h'.aside other hp hp', h.aside other hp hp']
  · rcases h.above other hp hne with heq | ⟨hnone, hfolder⟩
    · rcases h'.above other hp hne with heq' | ⟨hnone', hfolder'⟩
      · exact .inl (heq'.trans heq)
      · rw [hnone'] at heq
        cases hat : root.at? other with
        | none => exact .inr ⟨rfl, hfolder'⟩
        | some node => rw [hat] at heq; cases heq
    · rcases h'.above other hp hne with heq' | ⟨hnone', -⟩
      · exact .inr ⟨hnone, isFolderAt_of_bare_eq hfolder heq'⟩
      · obtain ⟨entries, hat⟩ := hfolder
        cases hnone'.symm.trans hat

instance : Trans (Confined loc) (Confined loc) (Confined loc) := ⟨trans⟩

theorem of_within (h : Within loc root root') : Confined loc root root' := by
  refine ⟨h.before, h.after, fun other hp hp' => h.apart hp hp', fun other hp hne => ?_⟩
  exact .inl (h.bare_eq fun hp' => hne (hp.eq_of_length_le hp'.length_le))

/-- A missing folder on the way is made. -/
theorem put_folder {name : String} {entries : List (String × Node)} (h : root.WellFormed)
    (hat : root.at? loc' = some (.folder entries)) (hnone : entries.lookup name = none)
    (hn : IsName name) (hp : loc' ++ [name] <+: loc) :
    Confined loc root (put (loc' ++ [name]) .empty root) := by
  have hnames : ∀ n ∈ loc' ++ [name], IsName n := by
    intro n hm
    rcases List.mem_append.mp hm with hm | hm
    · exact h.isName_of_mem hat hm
    · rw [List.mem_singleton.mp hm]
      exact hn
  have hwithin : Within (loc' ++ [name]) root (put (loc' ++ [name]) .empty root) :=
    .put h (by simp) hnames wellFormed_empty
  have hfree : root.at? (loc' ++ [name]) = none := (at?_folder_child hat name).trans hnone
  have hself : (put (loc' ++ [name]) .empty root).at? (loc' ++ [name]) = some .empty :=
    at?_put_self h hat
  -- Behind the new folder there is nothing, before as after.
  have hbehind (other : Location) (ho : loc' ++ [name] <+: other) : root.at? other = none := by
    obtain ⟨tail, rfl⟩ := ho
    rw [at?_append, hfree, Option.bind_none]
  have hempty (other : Location) (ho : loc' ++ [name] <+: other) (hne : other ≠ loc' ++ [name]) :
      (put (loc' ++ [name]) .empty root).at? other = none := by
    obtain ⟨tail, rfl⟩ := ho
    cases tail with
    | nil => exact absurd (List.append_nil _) hne
    | cons n tail =>
        rw [at?_append_of_eq hself]
        rfl
  refine ⟨h, hwithin.after, fun other hp₁ hp₂ => ?_, fun other hp₁ hne => ?_⟩
  · by_cases ho : loc' ++ [name] <+: other
    · rw [hbehind other ho, hempty other ho]
      rintro rfl
      exact hp₂ hp
    · exact hwithin.apart ho fun ho' => hp₂ (ho'.trans hp)
  · by_cases ho : loc' ++ [name] <+: other
    · by_cases heq : other = loc' ++ [name]
      · exact .inr ⟨hbehind other ho, [], by rw [heq]; exact hself⟩
      · exact .inl (by rw [hbehind other ho, hempty other ho heq])
    · exact .inl (hwithin.bare_eq ho)

end Confined

end Node

namespace Path

variable {all before : List String} {name : String}

/-- Below a root, and without steps up, normalisation drops the dots. -/
theorem foldl_normalStep_dots (h : ∀ name ∈ all, name = "." ∨ IsStep name) :
    all.foldl (normalStep true) before = (all.filter (· != ".")).reverse ++ before := by
  induction all generalizing before with
  | nil => rfl
  | cons name all ih =>
      have hrest := fun n hn => h n (List.mem_cons_of_mem _ hn)
      rcases h name List.mem_cons_self with rfl | ⟨-, hdot, hdots, -⟩
      · rw [List.foldl_cons]
        exact ih hrest
      · have hstep : normalStep true before name = name :: before := by
          simp [normalStep, hdot, hdots]
        rw [List.foldl_cons, hstep, ih hrest, List.filter_cons_of_pos (by simpa using hdot)]
        simp

theorem normalNames_dots (h : ∀ name ∈ all, name = "." ∨ IsStep name) :
    normalNames true all = all.filter (· != ".") := by
  rw [normalNames, foldl_normalStep_dots h]
  simp

end Path

namespace Lookup

variable {root : Node} {links : Nat} {loc : Location} {name : String} {rest : List String}

/-- Names of which the first one is free are put behind the folder, without dots. -/
theorem canonicalFrom_free_dots (hn : Path.IsStep name)
    (hrest : ∀ n ∈ rest, n = "." ∨ Path.IsStep n) (hl : ∀ n ∈ loc, Path.IsStep n)
    (hnone : root.at? (loc ++ [name]) = none) :
    canonicalFrom root links loc.reverse (name :: rest) =
      loc ++ [name] ++ rest.filter (· != ".") := by
  have hnames : ∀ n ∈ loc ++ name :: rest, n = "." ∨ Path.IsStep n := by
    intro n hmem
    rcases List.mem_append.mp hmem with hmem | hmem
    · exact .inr (hl n hmem)
    · rcases List.mem_cons.mp hmem with rfl | hmem
      · exact .inr hn
      · exact hrest n hmem
  have hkept : (loc ++ name :: rest).filter (· != ".") =
      loc ++ [name] ++ rest.filter (· != ".") := by
    have hself : loc.filter (· != ".") = loc :=
      List.filter_eq_self.mpr fun n hm => by simpa using (hl n hm).2.1
    rw [List.filter_append, hself, List.filter_cons_of_pos (by simpa using hn.2.1)]
    simp
  have hcanon (jump) : canonicalWith jump root loc.reverse (name :: rest) =
      loc ++ [name] ++ rest.filter (· != ".") := by
    simp only [canonicalWith, beq_iff_eq, hn.2.1, hn.2.2.1, if_false, List.reverse_cons,
      List.reverse_reverse, hnone]
    rw [Path.normalNames_dots hnames, hkept]
  cases links <;> exact hcanon _

end Lookup

namespace Files

variable {w : World} {path : String} {rest : List String} {loc : Location}
  {entries : List (String × Node)}

/-- An operation makes folders only on the way to a location; if it returns, a path leads there, to
a new folder or to one that was there before. -/
structure Reaches (x : Effect Unit) (path : String) (loc : Location) (w : World) : Prop where
  confined : Moves (Confined loc) x w
  leads : ∀ w', x w = (.ok (), w') → ∃ entries, Leads w'.root path loc entries ∧
    (entries = [] ∨ w.root.at? loc = some (.folder entries))

namespace Reaches

theorem of_error {x : Effect Unit} (error : SystemError) (hw : w.root.WellFormed)
    (hx : x w = (.error (.failed (.system error)), w)) : Reaches x path loc w := by
  refine ⟨.of_root_eq (by rw [hx]) (.refl hw loc), fun w' hx' => ?_⟩
  cases hx.symm.trans hx'

theorem of_leads (hw : w.root.WellFormed) (h : Leads w.root path loc entries) :
    Reaches (pure ()) path loc w := by
  refine ⟨.pure (.refl hw loc) (), fun w' hx => ?_⟩
  cases hx
  exact ⟨entries, h, .inr h.at?_eq⟩

theorem congr {x y : Effect Unit} (h : Reaches x path loc w) (hxy : y w = x w) :
    Reaches y path loc w := by
  refine ⟨?_, fun w' hx => h.leads w' (hxy.symm.trans hx)⟩
  rw [Moves, hxy]
  exact h.confined

end Reaches

/-- A free name gets a folder, from which the rest goes on. -/
theorem reaches_free {name : String} (hw : w.root.WellFormed) (hp : IsRooted path)
    (h : Leads w.root path loc entries) (hn : IsName name) (hnone : entries.lookup name = none)
    {target : Location} {goal : String} (ht : loc ++ [name] <+: target)
    (hrest : ∀ w₁ : World, w₁.root.WellFormed →
      Leads w₁.root (path ++ "/" ++ name) (loc ++ [name]) [] →
      Moves (Confined target) (makeFoldersFrom (path ++ "/" ++ name) rest) w₁ ∧
        ∀ w', makeFoldersFrom (path ++ "/" ++ name) rest w₁ = (.ok (), w') →
          Leads w'.root goal target []) :
    Reaches (makeFoldersFrom path (name :: rest)) goal target w := by
  have hfree (follow) := h.free_child hn hnone follow
  have hput : Moves (Confined target) (putStep (loc ++ [name]) .empty) w :=
    putStep_moves (.refl hw _) (.put_folder hw h.at?_eq hnone hn ht)
  have hnext {w₁ : World} (hx : putStep (loc ++ [name]) .empty w = (.ok (), w₁)) :
      w₁.root.WellFormed ∧ Leads w₁.root (path ++ "/" ++ name) (loc ++ [name]) [] := by
    have hextends := putStep_extends hw (by simp) (isName_of_mem_child hw h hn)
      wellFormed_empty (at?_of_place?_free (hfree false))
    rw [Moves, hx] at hextends
    exact ⟨hextends.after, hextends.leads_empty h (root_of_step hx)⟩
  refine Reaches.congr ⟨Moves.bind hput fun _ w₁ hx => ?_, fun w' hx => ?_⟩
    (makeFoldersFrom_free hp hfree)
  · obtain ⟨hw₁, h₁⟩ := hnext hx
    exact (hrest w₁ hw₁ h₁).1
  · obtain ⟨_, w₁, hx₁, hx⟩ := bind_eq_ok hx
    obtain ⟨hw₁, h₁⟩ := hnext hx₁
    exact ⟨[], (hrest w₁ hw₁ h₁).2 w' hx, .inl rfl⟩

/-- In an empty folder all further folders can be made, one in the other. -/
theorem makeFoldersFrom_empty (hp : IsRooted path) (hn : ∀ n ∈ rest, n = "." ∨ IsName n)
    (hw : w.root.WellFormed) (h : Leads w.root path loc []) :
    Moves (Confined (loc ++ rest.filter (· != "."))) (makeFoldersFrom path rest) w ∧
      ∀ w', makeFoldersFrom path rest w = (.ok (), w') →
        Leads w'.root (Path.under path rest) (loc ++ rest.filter (· != ".")) [] := by
  induction rest generalizing path loc w with
  | nil =>
      rw [List.filter_nil, List.append_nil]
      refine ⟨.pure (.refl hw loc) (), fun w' hx => ?_⟩
      cases hx
      exact h
  | cons name rest ih =>
      have hrest := fun n hmem => hn n (List.mem_cons_of_mem _ hmem)
      rcases hn name List.mem_cons_self with rfl | hname
      · rw [Moves, makeFoldersFrom_folder hp (plain_of_step (.inl rfl)) h.dot]
        exact ih (hp.under ".") hrest hw h.dot
      · have hloc : loc ++ (name :: rest).filter (· != ".") =
            loc ++ [name] ++ rest.filter (· != ".") := by
          rw [List.filter_cons_of_pos (by simpa using hname.2.1)]
          simp
        have hnone := at?_of_place?_free (h.free_child hname List.lookup_nil false)
        rw [hloc]
        have hr : Reaches _ (Path.under path (name :: rest)) _ w :=
          reaches_free hw hp h hname List.lookup_nil (List.prefix_append _ _)
            fun w₁ hw₁ h₁ => ih (hp.under name) hrest hw₁ h₁
        refine ⟨hr.confined, fun w' hx => ?_⟩
        obtain ⟨entries, hl, rfl | hat⟩ := hr.leads w' hx
        · exact hl
        · rw [at?_append, hnone, Option.bind_none] at hat
          cases hat

/-- Folders are made only on the way to the canonical location of a path. -/
theorem makeFoldersFrom_reaches (hw : w.root.WellFormed) (hp : IsRooted path)
    (h : Leads w.root path loc entries) (hn : ∀ n ∈ rest, n = "." ∨ IsName n) :
    Reaches (makeFoldersFrom path rest) (Path.under path rest)
      (canonicalFrom w.root linkLimit [] (Path.names path ++ rest)) w := by
  induction rest generalizing path loc entries with
  | nil =>
      rw [List.append_nil, canonicalFrom_folder h.1]
      exact .of_leads hw h
  | cons name rest ih =>
      have hrest := fun n hmem => hn n (List.mem_cons_of_mem _ hmem)
      have hplain := plain_of_step (hn name List.mem_cons_self)
      have hnames : Path.names path ++ name :: rest = Path.names (path ++ "/" ++ name) ++ rest := by
        rw [Path.names_append_slash, Path.names_eq_singleton hplain.1 hplain.2]
        simp
      have habs := hp.absolute_eq (w := w) name
      cases hl : place? w.root true (absolute w (path ++ "/" ++ name)) with
      | error error => exact .of_error _ hw (by rw [makeFoldersFrom, bind_error (lookup_error hl)])
      | ok place =>
          cases place with
          | found loc' node =>
              cases node with
              | file content modified =>
                  exact .of_error _ hw (by rw [makeFoldersFrom, bind_ok (lookup_ok hl)]; rfl)
              | link target =>
                  exact .of_error _ hw (by rw [makeFoldersFrom, bind_ok (lookup_ok hl)]; rfl)
              | folder entries' =>
                  rw [habs] at hl
                  have hleads := Leads.of_place? (Path.endsWithSeparator_under path hplain) hl
                  rw [hnames]
                  exact (ih (hp.under name) hleads hrest).congr
                    (makeFoldersFrom_folder hp hplain hleads)
          | free loc' =>
              cases hl' : place? w.root false (absolute w (path ++ "/" ++ name)) with
              | error error =>
                  refine .of_error error hw ?_
                  rw [makeFoldersFrom, bind_ok (lookup_ok hl)]
                  exact bind_error (lookup_error hl')
              | ok place' =>
                  cases place' with
                  | found loc'' node =>
                      refine .of_error .noEntry hw ?_
                      rw [makeFoldersFrom, bind_ok (lookup_ok hl)]
                      exact bind_ok (lookup_ok hl')
                  | free loc'' =>
                      rw [habs] at hl'
                      obtain ⟨hname, hnone⟩ :=
                        free_of_place? hw h (hn name List.mem_cons_self) hl'
                      have hstep : ∀ n ∈ loc, Path.IsStep n := fun n hm =>
                        isStep_of_isName (hw.isName_of_mem h.at?_eq hm)
                      obtain ⟨links, hcanon⟩ := canonicalFrom_append (name :: rest) h.1
                      rw [hcanon, canonicalFrom_free_dots (isStep_of_isName hname)
                        (fun n hm => (hrest n hm).imp_right isStep_of_isName) hstep
                        ((at?_folder_child h.at?_eq name).trans hnone)]
                      exact reaches_free hw hp h hname hnone (List.prefix_append _ _)
                        fun w₁ hw₁ h₁ => makeFoldersFrom_empty (hp.under name) hrest hw₁ h₁

/-- Making the folders of a path that is written without steps up. -/
theorem makeFolders_reaches (hw : w.root.WellFormed) (hf : IsFolderAt w.root [])
    (hc : '\x00' ∉ w.workingDirectory.toList) (hup : ".." ∉ Path.names (absolute w path)) :
    Reaches (makeFolders path) (absolute w path)
      (canonicalFrom w.root linkLimit [] (Path.names (absolute w path))) w := by
  by_cases hne : path = ""
  · subst hne
    exact .of_error _ hw rfl
  by_cases hnul : '\x00' ∈ path.toList
  · refine .of_error .badPath hw ?_
    rw [makeFolders, bind_ok (get_apply w), if_neg (by simpa using hne),
      if_pos (by simpa using hnul)]
    rfl
  have hnul' := not_mem_absolute (by decide) hnul hc
  have hnames : ∀ n ∈ Path.names (absolute w path), n = "." ∨ IsName n := by
    intro n hmem
    obtain ⟨hne', hs'⟩ := Path.mem_names hmem
    by_cases hdot : n = "."
    · exact .inl hdot
    · exact .inr ⟨hne', hdot, fun hdots => hup (hdots ▸ hmem), hs',
        fun hn' => hnul' (Path.mem_of_mem_names hmem hn')⟩
  have hunder : Path.names (Path.under "" (Path.names (absolute w path))) =
      Path.names (absolute w path) := Path.names_under fun n => Path.mem_names
  obtain ⟨entries, hl⟩ := leads_root hf
  have hr := makeFoldersFrom_reaches hw (.inl rfl) hl hnames
  refine Reaches.congr ⟨hr.confined, fun w' hx => ?_⟩ (makeFolders_eq hne hnul)
  obtain ⟨entries', hl', hat⟩ := hr.leads w' hx
  exact ⟨entries', hl'.congr hunder hnul', hat⟩

end Files

end ScriptPack

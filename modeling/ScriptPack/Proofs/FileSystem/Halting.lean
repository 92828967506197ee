import ScriptPack.Proofs.FileSystem.Frame

/-!
Where work on files can be stopped. A name is given as a whole or not at all; a file that is being
written holds some of its bytes; and of the folders of a path that leads nowhere some are made, so
that until the last one is there the path still leads nowhere.
-/

namespace ScriptPack.Files

open Effect Node Lookup

variable {w : World} {path name : String} {rest : List String} {loc : Location}
  {entries : List (String × Node)}

theorem rename_atomic (source target : String) : Atomic (rename source target) := by
  refine .observe_bind (require_observes false source) fun ⟨origin, node⟩ => ?_
  refine .observe_bind (.lookup false target) fun place => ?_
  cases place with
  | free goal =>
      simp only
      split
      · exact .of_observes (.pure ())
      · split
        · exact .of_observes (.failSystem _)
        · cases node <;> exact .change _
  | found goal there =>
      simp only
      split
      · exact .of_observes (.pure ())
      · split
        · exact .of_observes (.failSystem _)
        · split <;> first
            | exact .observe_bind (.failSystem _) fun _ => .change _
            | exact .change _

/-- Wherever the writing of a new file is stopped, there is no file or one with some bytes. -/
theorem writeFile_passes {P : Node → Prop} (hw : w.root.WellFormed)
    (h : place? w.root true (absolute w path) = .ok (.free loc)) (content : Bytes)
    (hp : P w.root) (hfile : ∀ bytes, P (put loc (.file bytes w.stamp) w.root)) :
    Passes P (writeFile path content) w := by
  rintro _ ⟨lines, steps, rfl⟩
  have hbegin : writeFile path content { w with lines, stepsLeft := steps } =
      writeAt loc content { w with lines, stepsLeft := steps } := by
    rw [writeFile, bind_ok (lookup_ok (w := { w with lines, stepsLeft := steps }) h)]
  rw [hbegin]
  have hstopping : ({ w with lines, stepsLeft := steps } : World).root.WellFormed := hw
  obtain hroot | ⟨bytes, hroot⟩ :
      (writeAt loc content { w with lines, stepsLeft := steps }).2.root = w.root ∨
        ∃ bytes, (writeAt loc content { w with lines, stepsLeft := steps }).2.root =
          put loc (.file bytes w.stamp) w.root := writeAt_root hstopping content
  · rw [hroot]
    exact hp
  · rw [hroot]
    exact hfile bytes

/-! ### Making folders -/

/-- A path leads nowhere, or to an empty folder. -/
structure Blank (path : String) (root : Node) : Prop where
  wellFormed : root.WellFormed
  folder : IsFolderAt root []
  missing_or_empty : ¬Leads? root path ∨ ∃ loc, Holds root path loc []

theorem endsWithSeparator_under (hne : rest ≠ []) (hn : ∀ n ∈ rest, IsName n) :
    Path.endsWithSeparator (Path.under path rest) = false := by
  obtain ⟨init, last, rfl⟩ := List.eq_nil_or_concat rest |>.resolve_left hne
  rw [List.concat_eq_append, Path.under_concat]
  exact Path.endsWithSeparator_under _ (plain_of_step (.inr (hn last (by simp))))

theorem under_ne_empty (hne : rest ≠ []) : Path.under path rest ≠ "" := by
  obtain ⟨init, last, rfl⟩ := List.eq_nil_or_concat rest |>.resolve_left hne
  rw [List.concat_eq_append, Path.under_concat]
  exact append_slash_ne_empty _ _

/-- Behind a name that is not there, a path leads nowhere. -/
theorem not_leads?_under {root : Node} (hf : IsFolderAt root []) (h : Leads root path loc entries)
    (hl : entries.lookup name = none) (hn : ∀ n ∈ name :: rest, IsName n) :
    ¬Leads? root (Path.under path (name :: rest)) := by
  induction rest using List.reverseRecOn with
  | nil =>
      rintro ⟨loc', node, hp⟩
      cases (h.free_child (hn name List.mem_cons_self) hl true).symm.trans hp
  | append_singleton init last ih =>
      rintro ⟨loc', node, hp⟩
      rw [← List.cons_append, Path.under_concat] at hp
      have hinit : ∀ n ∈ name :: init, IsName n := fun n hm => hn n (by
        rw [← List.cons_append]
        exact List.mem_append_left _ hm)
      obtain ⟨loc'', entries', hl'⟩ := Leads.of_child hf (isStep_of_isName (hn last (by simp))) hp
      exact ih hinit ⟨loc'', _, hl'.place?_eq (under_ne_empty (by simp))
        (endsWithSeparator_under (by simp) hinit)⟩

theorem blank_under {root : Node} (hw : root.WellFormed) (hs : Path.endsWithSeparator path = false)
    (h : Holds root path loc []) (hn : ∀ n ∈ rest, IsName n) : Blank (Path.under path rest) root := by
  have hf : IsFolderAt root [] := isFolderAt_nil h.at?_eq
  cases rest with
  | nil => exact ⟨hw, hf, .inr ⟨loc, h⟩⟩
  | cons name rest =>
      exact ⟨hw, hf, .inl (not_leads?_under hf (h.leads hw hs) List.lookup_nil hn)⟩

/-- A free name gets its folder at one stroke, and the rest goes on from there. -/
theorem makeFoldersFrom_free_passes {P : Node → Prop} (hs : w.stepsLeft = none) (hp : IsRooted path)
    (hw : w.root.WellFormed) (h : Leads w.root path loc entries) (hn : IsName name)
    (hl : entries.lookup name = none) (hbefore : P w.root)
    (hafter : ∀ w₁ : World, w₁.stepsLeft = none → w₁.root.WellFormed →
      Holds w₁.root (path ++ "/" ++ name) (loc ++ [name]) [] →
      P w₁.root ∧ Passes P (makeFoldersFrom (path ++ "/" ++ name) rest) w₁) :
    Passes P (makeFoldersFrom path (name :: rest)) w := by
  have hfree (follow) := h.free_child hn hl follow
  have hnext {w₁ : World} (hx : putStep (loc ++ [name]) .empty w = (.ok (), w₁)) :
      P w₁.root ∧ Passes P (makeFoldersFrom (path ++ "/" ++ name) rest) w₁ := by
    have hnone := ((putStep_orderly (loc ++ [name]) .empty).ends w hs).2
    have hroot := root_of_step hx
    rw [hx] at hnone
    refine hafter w₁ hnone ?_ ?_
    · rw [hroot]
      exact hw.put (isName_of_mem_child hw h hn) wellFormed_empty
    · rw [hroot]
      exact .of_free hw (hfree false) []
  refine Passes.congr (y := do
      putStep (loc ++ [name]) .empty
      makeFoldersFrom (path ++ "/" ++ name) rest) ?_ fun w' hw' => ?_
  · obtain ⟨w₁, hx, he⟩ := putStep_does hs (loc ++ [name]) .empty
    refine .bind (putStep_orderly _ _) hs ?_ fun _ w₁ hx => (hnext hx).2
    refine (Atomic.change _).passes (putStep_orderly _ _) hs hbefore ?_
    have hdone := (hnext hx).1
    rw [← show (putStep (loc ++ [name]) .empty w).2 = w₁ from congrArg Prod.snd hx] at hdone
    exact hdone
  · rw [← hw'.root_eq] at hfree
    exact makeFoldersFrom_free hp hfree

/-- In an empty folder the folders come one in the other, so that only with the last one their path
leads somewhere. -/
theorem makeFoldersFrom_blank (hs : w.stepsLeft = none) (hw : w.root.WellFormed)
    (hp : IsRooted path) (hsep : Path.endsWithSeparator path = false)
    (h : Holds w.root path loc []) (hn : ∀ n ∈ rest, IsName n) :
    Passes (Blank (Path.under path rest)) (makeFoldersFrom path rest) w := by
  have hblank := blank_under hw hsep h hn
  induction rest generalizing path loc w with
  | nil => exact .of_observes (.pure ()) hblank
  | cons name rest ih =>
      have hname := hn name List.mem_cons_self
      have hrest := fun n hm => hn n (List.mem_cons_of_mem _ hm)
      have hsep' := Path.endsWithSeparator_under path (plain_of_step (.inr hname))
      refine makeFoldersFrom_free_passes hs hp hw (h.leads hw hsep) hname List.lookup_nil hblank
        fun w₁ hs₁ hw₁ h₁ => ?_
      have hblank₁ := blank_under hw₁ hsep' h₁ hrest
      exact ⟨hblank₁, ih hs₁ hw₁ (hp.under name) hsep' h₁ hrest hblank₁⟩

theorem makeFoldersFrom_passes (hs : w.stepsLeft = none) (hw : w.root.WellFormed)
    (hp : IsRooted path) (h : Leads w.root path loc entries) (hn : ∀ n ∈ rest, IsName n)
    (hblank : Blank (Path.under path rest) w.root) :
    Passes (Blank (Path.under path rest)) (makeFoldersFrom path rest) w := by
  -- If it fails at once, it does so wherever the process would be stopped.
  have hsame {x : Effect Unit} (hx : ∀ w', w.Like w' → (x w').2.root = w'.root) :
      Passes (Blank (Path.under path rest)) x w := fun w' hw' => by
    rw [hx w' hw', hw'.root_eq]
    exact hblank
  induction rest generalizing path loc entries with
  | nil => exact .of_observes (.pure ()) hblank
  | cons name rest ih =>
      have hname := hn name List.mem_cons_self
      have hrest := fun n hm => hn n (List.mem_cons_of_mem _ hm)
      have hplain := plain_of_step (.inr hname)
      have hsep := Path.endsWithSeparator_under path hplain
      have habs {w' : World} (hw' : w.Like w') (follow) :
          place? w'.root follow (absolute w' (path ++ "/" ++ name)) =
            place? w.root follow (path ++ "/" ++ name) := by
        rw [hw'.root_eq, hp.absolute_eq]
      cases hl : place? w.root true (path ++ "/" ++ name) with
      | error error =>
          refine hsame fun w' hw' => ?_
          rw [makeFoldersFrom, bind_error (lookup_error ((habs hw' true).trans hl))]
      | ok place =>
          cases place with
          | found loc' node =>
              cases node with
              | file content modified =>
                  refine hsame fun w' hw' => ?_
                  rw [makeFoldersFrom, bind_ok (lookup_ok ((habs hw' true).trans hl))]
                  rfl
              | link target =>
                  refine hsame fun w' hw' => ?_
                  rw [makeFoldersFrom, bind_ok (lookup_ok ((habs hw' true).trans hl))]
                  rfl
              | folder entries' =>
                  have hleads := Leads.of_place? hsep hl
                  refine Passes.congr (ih (hp.under name) hleads hrest hblank hsame)
                    fun w' hw' => makeFoldersFrom_folder hp hplain (hw'.root_eq.symm ▸ hleads)
          | free loc' =>
              cases hl' : place? w.root false (path ++ "/" ++ name) with
              | error error =>
                  refine hsame fun w' hw' => ?_
                  rw [makeFoldersFrom, bind_ok (lookup_ok ((habs hw' true).trans hl))]
                  simp only
                  rw [bind_error (lookup_error ((habs hw' false).trans hl'))]
              | ok place' =>
                  cases place' with
                  | found loc'' node =>
                      refine hsame fun w' hw' => ?_
                      rw [makeFoldersFrom, bind_ok (lookup_ok ((habs hw' true).trans hl))]
                      simp only
                      rw [bind_ok (lookup_ok ((habs hw' false).trans hl'))]
                      rfl
                  | free loc'' =>
                      have hlook := (free_of_place? hw h (.inr hname) hl').2
                      refine makeFoldersFrom_free_passes hs hp hw h hname hlook hblank
                        fun w₁ hs₁ hw₁ h₁ => ?_
                      have hblank₁ := blank_under hw₁ hsep h₁ hrest
                      exact ⟨hblank₁, makeFoldersFrom_blank hs₁ hw₁ (hp.under name) hsep h₁ hrest⟩

/-- Wherever the making of a folder is stopped that leads nowhere, it is not there or empty. -/
theorem makeFolders_passes (hs : w.stepsLeft = none) (hw : w.root.WellFormed)
    (hf : IsFolderAt w.root []) (hd : Path.IsNormal path) (ha : ¬Leads? w.root path) :
    Passes (Blank path) (makeFolders path) w := by
  have hblank : Blank path w.root := ⟨hw, hf, .inl ha⟩
  by_cases hnul : '\x00' ∈ path.toList
  · intro w' hw'
    rw [makeFolders, bind_ok (get_apply w'), if_neg (by simpa using hd.ne_empty),
      if_pos (by simpa using hnul)]
    exact hw'.root_eq ▸ hblank
  have hnames : ∀ n ∈ Path.names path, IsName n := fun n hm => by
    have hstep := hd.isStep hm
    exact ⟨hstep.1, hstep.2.1, hstep.2.2.1, hstep.2.2.2,
      fun hn => hnul (Path.mem_of_mem_names hm hn)⟩
  obtain ⟨entries, hl⟩ := leads_root hf
  have hunder : Path.under "" (Path.names path) = path := hd.under_names
  have hpasses : Passes (Blank (Path.under "" (Path.names path)))
      (makeFoldersFrom "" (Path.names path)) w :=
    makeFoldersFrom_passes hs hw (.inl rfl) hl hnames (hunder.symm ▸ hblank)
  rw [hunder] at hpasses
  refine hpasses.congr fun w' _ => ?_
  rw [makeFolders_eq hd.ne_empty hnul, absolute_normal hd]

end ScriptPack.Files

import ScriptPack.Proofs.Cache.Restart
import ScriptPack.Proofs.FileSystem.Straight

/-!
A guarded folder: one that is reached without links. What is done to its entries by their names stays
in the folder, whether the operation succeeds or not and whatever else is in the folder.
-/

namespace ScriptPack.Cache

open Effect Node Lookup Files

/-- A process works beside a folder to which no link leads, and the draft of the document is no link
either. -/
structure Guarded (dir : String) (w : World) : Prop where
  running : w.Running
  normal : Path.IsNormal dir
  straight : w.root.Straight (Path.names dir)
  draft : ∀ target, w.root.at? (Path.names dir ++ [draftName w.processId]) ≠ some (.link target)

variable {α β : Type} {dir name : String} {w w' : World} {x : Effect α} {f : α → Effect β}
  {P Q : α → Prop} {R : β → Prop} {entries entries' : List (String × Node)}

namespace Guarded

theorem same (h : Guarded dir w) (he : w.Evolves w.root w') : Guarded dir w' := by
  have hr := h.running.evolve he h.running.wellFormed h.running.folder
  refine ⟨hr, h.normal, ?_, fun target => ?_⟩
  · rw [he.root_eq]
    exact h.straight
  · rw [he.root_eq, he.processId_eq]
    exact h.draft target

/-- The folder is there, or nothing can be reached under its path. -/
theorem cases (h : Guarded dir w) :
    (∃ entries, Open dir (Path.names dir) entries w) ∨ ∀ name, Path.IsStep name →
      ∀ follow, ∃ error, place? w.root follow (absolute w (dir ++ "/" ++ name)) = .error error := by
  by_cases hf : IsFolderAt w.root (Path.names dir)
  · obtain ⟨entries, hat⟩ := hf
    exact .inl ⟨entries, h.running, h.normal, holds_of_at? h.running.wellFormed h.normal hat⟩
  · refine .inr fun name hn follow => ?_
    cases hp : place? w.root follow (absolute w (dir ++ "/" ++ name)) with
    | error error => exact ⟨error, rfl⟩
    | ok place =>
        rw [absolute_child h.normal] at hp
        obtain ⟨loc, entries, hl⟩ := Leads.of_child h.running.folder hn hp
        have hloc := h.straight.location h.normal
          (hl.place?_eq h.normal.ne_empty h.normal.endsWithSeparator)
        obtain rfl : loc = Path.names dir := hloc
        exact absurd ⟨entries, hl.at?_eq⟩ hf

end Guarded

/-- The operation works on the folder alone and leaves it guarded, and what it returns has the
property. -/
structure Stays (dir : String) (Q : α → Prop) (x : Effect α) (w : World) : Prop where
  guarded : Guarded dir (x w).2
  confined : Moves (Confined (Path.names dir)) x w
  later : w.Later (x w).2
  returns : ∀ a, (x w).1 = .ok a → Q a

namespace Stays

theorem of_evolves (h : Guarded dir w) (he : w.Evolves w.root (x w).2)
    (hq : ∀ a, (x w).1 = .ok a → Q a) : Stays dir Q x w :=
  ⟨h.same he, .of_root_eq he.root_eq (.refl h.running.wellFormed _), he.later, hq⟩

theorem pure (h : Guarded dir w) {a : α} (ha : Q a) : Stays dir Q (pure a) w := by
  refine .of_evolves h (.refl w) fun b hb => ?_
  cases hb
  exact ha

theorem observe (h : Guarded dir w) (ho : Observes x) : Stays dir (fun _ => True) x w := by
  refine .of_evolves h ?_ fun _ _ => trivial
  rcases ho w with ⟨a, w', hx, he⟩ | ⟨failure, w', hx, he⟩
  · rw [hx]
    exact he
  · rw [hx]
    exact he

theorem mono (h : Stays dir P x w) (hpq : ∀ a, P a → Q a) : Stays dir Q x w :=
  ⟨h.guarded, h.confined, h.later, fun a ha => hpq a (h.returns a ha)⟩

theorem congr {y : Effect α} (h : Stays dir Q x w) (hy : y w = x w) : Stays dir Q y w := by
  refine ⟨hy ▸ h.guarded, ?_, hy ▸ h.later, fun a ha => h.returns a (hy ▸ ha)⟩
  rw [Moves, hy]
  exact h.confined

theorem bind_eq (hx : Stays dir P x w) (hf : ∀ a w', x w = (.ok a, w') → P a → Guarded dir w' →
    w.Later w' → Stays dir R (f a) w') : Stays dir R (x >>= f) w := by
  obtain ⟨hguarded, hconfined, hlater, hreturns⟩ := hx
  rw [Moves] at hconfined
  cases hw : x w with
  | mk result w' =>
      rw [hw] at hguarded hconfined hlater hreturns
      cases result with
      | error stop =>
          have hbind : (x >>= f) w = (.error stop, w') := bind_error hw
          constructor
          · rw [hbind]
            exact hguarded
          · rw [Moves, hbind]
            exact hconfined
          · rw [hbind]
            exact hlater
          · intro b hb
            rw [hbind] at hb
            cases hb
      | ok a =>
          have hbind : (x >>= f) w = f a w' := bind_ok hw
          have hrest := hf a w' hw (hreturns a rfl) hguarded hlater
          constructor
          · rw [hbind]
            exact hrest.guarded
          · rw [Moves, hbind]
            exact hconfined.trans hrest.confined
          · rw [hbind]
            exact hlater.trans hrest.later
          · rw [hbind]
            exact hrest.returns

theorem bind (hx : Stays dir P x w) (hf : ∀ a w', P a → Guarded dir w' →
    w.Later w' → Stays dir R (f a) w') : Stays dir R (x >>= f) w :=
  hx.bind_eq fun a w' _ => hf a w'

theorem attempt (hx : Stays dir Q x w) :
    Stays dir (fun result => ∀ a, result = .ok a → Q a) (attempt x) w := by
  obtain ⟨hguarded, hconfined, hlater, hreturns⟩ := hx
  rw [Moves] at hconfined
  have hworld : (Effect.attempt x w).2 = (x w).2 := by
    unfold Effect.attempt
    cases x w with
    | mk result w' => rcases result with (failure | _) | a <;> rfl
  refine ⟨hworld ▸ hguarded, by rw [Moves, hworld]; exact hconfined, hworld ▸ hlater,
    fun result hr a ha => ?_⟩
  subst ha
  exact hreturns a (congrArg Prod.fst (eq_ok_of_attempt (Prod.ext hr rfl)))

theorem ite {p : Prop} [Decidable p] {y : Effect α} (hx : Stays dir Q x w) (hy : Stays dir Q y w) :
    Stays dir Q (if p then x else y) w := by
  split
  · exact hx
  · exact hy

/-- A change of the entries of the folder, after which the draft is still no link. -/
theorem of_put (h : Guarded dir w) (ho : Open dir (Path.names dir) entries w)
    (hwf : WellFormed (.folder entries'))
    (hdraft : ∀ target, entries'.lookup (draftName w.processId) ≠ some (.link target))
    (he : w.Evolves (put (Path.names dir) (.folder entries') w.root) (x w).2)
    (hq : ∀ a, (x w).1 = .ok a → Q a) : Stays dir Q x w := by
  have ho' := ho.put hwf he
  have hwithin : Within (Path.names dir) w.root (x w).2.root := by
    rw [he.root_eq]
    exact .put ho.running.wellFormed h.normal.names_ne_nil
      (fun n hn => ho.running.wellFormed.isName_of_mem ho.holds.at?_eq hn) hwf
  refine ⟨⟨ho'.running, h.normal, fun other hp target hat => ?_, fun target hat => ?_⟩,
    .of_within hwithin, he.later, hq⟩
  · by_cases hself : Path.names dir <+: other
    · obtain rfl : other = Path.names dir := hp.eq_of_length_le hself.length_le
      cases hat.symm.trans ho'.holds.at?_eq
    · exact h.straight other hp target (link_of_bare_eq (hwithin.bare_eq hself) hat)
  · rw [he.processId_eq, at?_folder_child ho'.holds.at?_eq] at hat
    exact hdraft target hat

theorem of_does {a : α} (h : Guarded dir w) (ho : Open dir (Path.names dir) entries w)
    (hx : Does x w a (put (Path.names dir) (.folder entries') w.root))
    (hwf : WellFormed (.folder entries'))
    (hdraft : ∀ target, entries'.lookup (draftName w.processId) ≠ some (.link target)) (ha : Q a) :
    Stays dir Q x w := by
  obtain ⟨w', hx, he⟩ := hx
  refine .of_put h ho hwf hdraft (by rw [hx]; exact he) fun b hb => ?_
  rw [hx] at hb
  cases hb
  exact ha

end Stays

theorem Guarded.draft_entry (h : Guarded dir w) (ho : Open dir (Path.names dir) entries w)
    (target : String) : entries.lookup (draftName w.processId) ≠ some (.link target) := by
  rw [← at?_folder_child ho.holds.at?_eq]
  exact h.draft target

/-! ### Steps in the folder -/

/-- The folder is made, or something is in its way and nothing changes. -/
theorem makeFolders_stays (h : Guarded dir w) :
    Stays dir (fun _ => True) (makeFolders dir) w ∧ ∀ w', makeFolders dir w = (.ok (), w') →
      ∃ entries, Open dir (Path.names dir) entries w' := by
  have hr := h.running
  have habs := absolute_normal h.normal (w := w)
  have hup : ".." ∉ Path.names (absolute w dir) := by
    rw [habs]
    exact fun hn => (h.normal.isStep hn).2.2.1 rfl
  have hsame {result : Except Stop Unit} (hx : makeFolders dir w = (result, w)) :
      Stays dir (fun _ => True) (makeFolders dir) w :=
    .of_evolves h (by rw [hx]; exact .refl w) fun _ _ => trivial
  have hleads {w' : World} {loc : Location} {entries : List (String × Node)}
      (hl : Leads w'.root dir loc entries)
      (h' : Guarded dir w') : ∃ entries, Open dir (Path.names dir) entries w' := by
    obtain rfl : loc = Path.names dir := h'.straight.location h.normal
      (hl.place?_eq h.normal.ne_empty h.normal.endsWithSeparator)
    exact ⟨entries, h'.running, h.normal, holds_of_at? h'.running.wellFormed h.normal hl.at?_eq⟩
  rcases makeFolders_cases hr.steps hr.wellFormed hr.folder hr.current hup with
    ⟨failure, hx⟩ | ⟨hx, loc, entries, hl⟩ | ⟨root, loc, ⟨w₁, hx, he⟩, hm, hall⟩
  · exact ⟨hsame hx, fun w' hx' => nomatch hx.symm.trans hx'⟩
  · refine ⟨hsame hx, fun w' hx' => ?_⟩
    cases hx.symm.trans hx'
    rw [habs] at hl
    exact hleads hl h
  · obtain ⟨hholds, hcanon⟩ := hall h.normal
    obtain rfl : Path.names dir = loc := (h.straight.canonical h.normal).symm.trans hcanon
    have hconfined := (makeFolders_reaches hr.wellFormed hr.folder hr.current hup).confined
    rw [habs, h.straight.canonical h.normal, Moves, hx, he.root_eq] at hconfined
    have hr₁ := hr.evolve he hm.wellFormed (isFolderAt_nil hm.leads.at?_eq)
    have ho : Open dir (Path.names dir) [] w₁ := ⟨hr₁, h.normal, by rw [he.root_eq]; exact hholds⟩
    have hguarded : Guarded dir w₁ := by
      refine ⟨hr₁, h.normal, fun other hp target hat => ?_, fun target hat => ?_⟩
      · rw [he.root_eq] at hat
        by_cases hne : other = Path.names dir
        · rw [hne, hholds.at?_eq] at hat
          cases hat
        · rcases hconfined.above other hp hne with hbare | ⟨-, entries, hfolder⟩
          · exact h.straight other hp target (link_of_bare_eq hbare hat)
          · cases hat.symm.trans hfolder
      · rw [at?_folder_child ho.holds.at?_eq] at hat
        cases hat
    refine ⟨⟨by rw [hx]; exact hguarded, ?_, by rw [hx]; exact he.later, fun _ _ => trivial⟩,
      fun w' hx' => ?_⟩
    · rw [Moves, hx, he.root_eq]
      exact hconfined
    · cases hx.symm.trans hx'
      exact ⟨[], ho⟩

/-- Whatever an entry is, it is removed and nothing else. -/
theorem removePath_stays (h : Guarded dir w) (hn : IsName name) :
    Stays dir (fun _ => True) (removePath (dir ++ "/" ++ name)) w := by
  rcases h.cases with ⟨entries, ho⟩ | hnone
  · refine .of_does h ho (ho.removePath hn) (ho.wellFormed.eraseEntry name) (fun target => ?_) trivial
    rw [lookup_eraseEntry ho.wellFormed.sorted]
    split
    · exact nofun
    · exact h.draft_entry ho target
  · obtain ⟨error, he⟩ := hnone name (isStep_of_isName hn) false
    refine Stays.bind (P := fun _ => True) ?_ fun result w' _ h' _ => ?_
    · refine Stays.mono (Stays.attempt (Q := fun _ => True) ?_) fun _ _ => trivial
      refine .of_evolves h ?_ fun _ _ => trivial
      by_cases hne : error = .noEntry
      · rw [removeAll_noEntry (hne ▸ he)]
        exact .refl w
      · rw [removeAll_error he hne]
        exact .refl w
    · split
      · exact .pure h' trivial
      · exact .observe h' ((Returns.warnFailed _ _ _).bind fun _ => .pure _).observes

/-- An orderly operation of a process that goes on changes files and lines alone. -/
theorem evolves_of_orderly (h : Guarded dir w) (ho : Orderly x) : w.Evolves (x w).2.root (x w).2 := by
  rcases ho.cases h.running.steps with ⟨a, w', hx, he⟩ | ⟨failure, w', hx, he⟩
  · rw [hx]
    exact he
  · rw [hx]
    exact he

/-- An entry gets the name of another one. -/
theorem rename_stays {other : String} (h : Guarded dir w) (hn : IsName name) (hother : IsName other)
    (hd : other ≠ draftName w.processId) :
    Stays dir (fun _ => True) (rename (dir ++ "/" ++ name) (dir ++ "/" ++ other)) w := by
  have he := evolves_of_orderly h (rename_orderly (dir ++ "/" ++ name) (dir ++ "/" ++ other))
  rcases h.cases with ⟨entries, ho⟩ | hnone
  · have hw := ho.running.wellFormed
    have hleads := ho.holds.leads hw h.normal.endsWithSeparator
    have hmoves : Moves (fun root root' => root' = root ∨ ∃ node : Node, node.WellFormed ∧
        root' = put (Path.names dir) (.folder (setEntry other node (eraseEntry name entries))) root)
        (rename (dir ++ "/" ++ name) (dir ++ "/" ++ other)) w := by
      refine rename_moves (.inl rfl) fun origin node place hsource htarget => .inr ⟨node, ?_, ?_⟩
      · exact hw.at? (place?_found hsource)
      · rw [absolute_child h.normal] at hsource htarget
        have horigin := hleads.child_location hw hn hsource
        have hgoal := hleads.child_location hw hother htarget
        rw [Place.location] at horigin
        rw [horigin, hgoal, remove_child hw ho.holds.at?_eq,
          put_child (hw.put (fun n hm => hw.isName_of_mem ho.holds.at?_eq hm)
            (ho.wellFormed.eraseEntry name)) (at?_put_of_some hw ho.holds.at?_eq), put_put hw]
    rcases hmoves with hsame | ⟨node, hnode, hroot⟩
    · exact .of_evolves h (hsame ▸ he) fun _ _ => trivial
    · have hwf := (ho.wellFormed.eraseEntry name).setEntry hother hnode
      refine .of_put h ho hwf (fun target => ?_) (hroot ▸ he) fun _ _ => trivial
      rw [lookup_setEntry (ho.wellFormed.eraseEntry name).sorted, if_neg hd.symm,
        lookup_eraseEntry ho.wellFormed.sorted]
      split
      · simp
      · exact h.draft_entry ho target
  · obtain ⟨error, herror⟩ := hnone name (isStep_of_isName hn) false
    have hx : rename (dir ++ "/" ++ name) (dir ++ "/" ++ other) w =
        (.error (.failed (.system error)), w) := bind_error (require_error herror)
    exact .of_evolves h (by rw [hx]; exact .refl w) fun _ _ => trivial

theorem writeDraft_stays (h : Guarded dir w) (bytes : Bytes) :
    Stays dir (fun _ => True) (writeFile (dir ++ "/" ++ draftName w.processId) bytes) w := by
  have hid := isName_draftName h.running.process
  rcases h.cases with ⟨entries, ho⟩ | hnone
  · have hw := ho.running.wellFormed
    have hwrite (hfile : ∀ node, entries.lookup (draftName w.processId) = some node →
        node.isFile = true) :
        Stays dir (fun _ => True) (writeFile (dir ++ "/" ++ draftName w.processId) bytes) w := by
      refine .of_does h ho (writeFile_child ho.running.steps hw h.normal ho.holds hid hfile bytes)
        (ho.wellFormed.setEntry hid (.file _ _)) (fun target => ?_) trivial
      rw [lookup_setEntry ho.wellFormed.sorted, if_pos rfl]
      exact nofun
    cases hl : entries.lookup (draftName w.processId) with
    | none => exact hwrite fun node hnode => nomatch hl.symm.trans hnode
    | some node =>
        cases node with
        | link target => exact absurd hl (h.draft_entry ho target)
        | file content modified =>
            refine hwrite fun node hnode => ?_
            cases hl.symm.trans hnode
            rfl
        | folder below =>
            have hx := writeFile_folder (place?_child_found hw h.normal ho.holds hl true nofun) bytes
            exact .of_evolves h (by rw [hx]; exact .refl w) fun _ _ => trivial
  · obtain ⟨error, herror⟩ := hnone _ (isStep_of_isName hid) true
    exact .of_evolves h (by rw [writeFile_error herror]; exact .refl w) fun _ _ => trivial

theorem install_stays (h : Guarded dir w) (bytes : Bytes) :
    Stays dir (fun _ => True) (Store.install dir w.processId bytes) w := by
  have hid := isName_draftName h.running.process
  rw [Store.install, draftPath_eq h.normal, documentPath_eq h.normal]
  refine (writeDraft_stays h bytes).bind fun _ w' _ h' hlater => ?_
  exact rename_stays h' hid isName_documentName (draftName_ne _).symm

/-- Whether records are written or not, and what they are, only the folder is worked on. -/
theorem commit_stays {store : Store} (hroot : store.root = dir) (next : Records)
    (h : Guarded dir w) :
    Stays dir (fun store' => store' = { store with records := next }) (store.commit next) w := by
  subst hroot
  cases hs : Document.serialize next with
  | error failure =>
      have hcommit : store.commit next =
          (makeFolders store.root >>= fun _ => get >>= fun _ => fail failure) := by
        rw [Store.commit_eq, hs]
      rw [hcommit]
      refine (makeFolders_stays h).1.bind fun _ w' _ h' _ => ?_
      have hx : (get >>= fun _ => (fail failure : Effect Store)) w' =
          (.error (.failed failure), w') := bind_ok (get_apply w')
      exact .of_evolves h' (by rw [hx]; exact .refl w') fun store' hs => nomatch hx ▸ hs
  | ok text =>
      have hcommit : store.commit next = (makeFolders store.root >>= fun _ => get >>= fun w' =>
          Store.install store.root w'.processId (Text.Utf8.encode text) >>= fun _ =>
          pure { store with records := next }) := by
        rw [Store.commit_eq, hs]
      rw [hcommit]
      refine (makeFolders_stays h).1.bind fun _ w' _ h' _ => ?_
      refine .congr ?_ (bind_ok (get_apply w'))
      exact (install_stays h' _).bind fun _ w'' _ h'' _ => .pure h'' rfl

/-- A result is copied to a name that is not that of the draft. -/
theorem copyIn_stays {cache : Cache} {id : String} (hdir : cache.directory = dir)
    (h : Guarded dir w) (hid : IsId id) (output : String) :
    Stays dir (fun _ => True) (cache.copyIn output (artifactPath dir id)) w := by
  subst hdir
  have hstep := isStep_of_isName hid.isName
  have hne : id ≠ draftName w.processId := fun heq => by
    have hdoc := isDocumentName_draftName w.processId
    rw [← heq, hid.not_document] at hdoc
    cases hdoc
  have hne' : partialName id ≠ draftName w.processId := fun heq => by
    have hdoc := isDocumentName_draftName w.processId
    rw [← heq, hid.partial_not_document] at hdoc
    cases hdoc
  obtain ⟨hmake, hopen⟩ := makeFolders_stays h
  rw [copyIn, partialPath_eq h.normal hstep, artifactPath_eq h.normal hstep]
  refine hmake.bind_eq fun _ w₁ hx₁ _ h₁ hp₁ => ?_
  obtain ⟨entries, ho₁⟩ := hopen w₁ hx₁
  have hremove := removeAll_child ho₁.running.steps ho₁.running.wellFormed ho₁.normal ho₁.holds
    hid.isName_partial
  have hwf := ho₁.wellFormed.eraseEntry (partialName id)
  have hstay : Stays cache.directory (fun _ => True)
      (removeAll (cache.directory ++ "/" ++ partialName id)) w₁ := by
    refine .of_does h₁ ho₁ hremove hwf (fun target => ?_) trivial
    rw [lookup_eraseEntry ho₁.wellFormed.sorted, if_neg (hp₁.processId_eq ▸ hne'.symm)]
    exact h₁.draft_entry ho₁ target
  refine hstay.bind_eq fun _ w₂ hx₂ _ h₂ hp₂ => ?_
  obtain ⟨_, hx₂', he₂⟩ := hremove
  cases hx₂.symm.trans hx₂'
  have ho₂ := ho₁.put hwf he₂
  have hnone : (eraseEntry (partialName id) entries).lookup (partialName id) = none := by
    rw [lookup_eraseEntry ho₁.wellFormed.sorted, if_pos rfl]
  have hcopy : Stays cache.directory (fun _ => True)
      (copy true output (cache.directory ++ "/" ++ partialName id)) w₂ := by
    rcases copy_fresh ho₂.running.steps ho₂.running.wellFormed ho₂.normal ho₂.holds
      hid.isName_partial hnone output with ⟨failure, w₃, hx₃, he₃⟩ | ⟨_, _, new, -, hc, hdoes⟩
    · refine .of_evolves h₂ (by rw [hx₃]; exact he₃) fun _ _ => trivial
    · rw [put_child ho₂.running.wellFormed ho₂.holds.at?_eq] at hdoes
      refine .of_does h₂ ho₂ hdoes (hwf.setEntry hid.isName_partial hc.wellFormed)
        (fun target => ?_) trivial
      rw [lookup_setEntry hwf.sorted, if_neg (hp₂.processId_eq ▸ hp₁.processId_eq ▸ hne'.symm)]
      exact h₂.draft_entry ho₂ target
  refine hcopy.bind fun _ w₃ _ h₃ hp₃ => ?_
  refine (rename_stays h₃ hid.isName_partial hid.isName ((hp₁.trans (hp₂.trans hp₃)).processId_eq ▸ hne)).bind
    fun _ w₄ _ h₄ _ => ?_
  refine .observe h₄ ((Observes.attempt (.lookup _ _)).bind fun result => ?_)
  split <;> exact .pure _

end ScriptPack.Cache

import ScriptPack.Proofs.Cache.Grounds
import ScriptPack.Proofs.Cache.Inventory
import ScriptPack.Proofs.FileSystem.Halting

/-!
Where work on the folder of a cache can be stopped. A copy comes in under a name that no document
lists, a document is drafted beside the old one, and a sweep removes what no record has. Eviction
alone touches what the document lists: it removes artifacts before it drops their records.
-/

namespace ScriptPack.Cache

open Effect Node Lookup Files

variable {α β : Type} {x : Effect α} {f : α → Effect β} {a : α} {cache : Cache} {dir name id : String}
  {loc : Location} {w w' : World} {entries entries₁ entries₂ : List (String × Node)}
  {Q : List (String × Node) → Prop} {P : Node → Prop} {records : Records} {shared : Bool}

/-- The entries of the folder to which a path leads are as `Q` says. Where it leads nowhere, there
are none. -/
structure Lies (dir : String) (Q : List (String × Node) → Prop) (root : Node) : Prop where
  wellFormed : root.WellFormed
  folder : IsFolderAt root []
  cases : (¬Leads? root dir ∧ Q []) ∨ ∃ loc entries, Holds root dir loc entries ∧ Q entries

theorem Lies.mono {Q' : List (String × Node) → Prop} {root : Node} (h : Lies dir Q root)
    (hq : ∀ entries, Q entries → Q' entries) : Lies dir Q' root := by
  refine ⟨h.wellFormed, h.folder, ?_⟩
  rcases h.cases with ⟨hm, h₀⟩ | ⟨loc, entries, hh, he⟩
  · exact .inl ⟨hm, hq _ h₀⟩
  · exact .inr ⟨loc, entries, hh, hq _ he⟩

namespace Open

theorem lies (h : Open dir loc entries w) (hq : Q entries) : Lies dir Q w.root :=
  ⟨h.running.wellFormed, h.running.folder, .inr ⟨loc, entries, h.holds, hq⟩⟩

theorem lies_after (h : Open dir loc entries w) (hw : WellFormed (.folder entries₁)) (hq : Q entries₁) :
    Lies dir Q (Node.put loc (.folder entries₁) w.root) := by
  have ho : Open dir loc entries₁ { w with root := Node.put loc (.folder entries₁) w.root } :=
    h.put hw ⟨w.lines, rfl⟩
  exact ho.lies hq

/-- What is done to one entry, however far it comes. -/
theorem passes_within (h : Open dir loc entries w)
    (hx : ∀ w', w.Like w' → Moves (Within (loc ++ [name])) x w')
    (hq : ∀ entries', (∀ key, key ≠ name → entries'.lookup key = entries.lookup key) → Q entries') :
    Passes (Lies dir Q) x w := by
  intro w' hw
  have hmoves := hx w' hw
  rw [Moves, hw.root_eq] at hmoves
  obtain ⟨entries', heq, hwf, hl⟩ := hmoves.child h.holds.at?_eq
  rw [heq]
  exact h.lies_after hwf (hq entries' hl)

theorem passes_bind (h : Open dir loc entries w) (ho : Orderly x) (hx : Passes P x w)
    (hd : Does x w a (Node.put loc (.folder entries₁) w.root)) (hw : WellFormed (.folder entries₁))
    (hf : ∀ w', Open dir loc entries₁ w' → w'.stamp = w.stamp → w'.processId = w.processId →
      Passes P (f a) w') : Passes P (x >>= f) w := by
  refine .bind ho h.running.steps hx fun b w' hx' => ?_
  obtain ⟨w₁, hx₁, he⟩ := hd
  cases hx₁.symm.trans hx'
  exact hf w' (h.put hw he) he.stamp_eq he.processId_eq

theorem makeFolders_like (h : Open dir loc entries w) (hw : w.Like w') :
    Files.makeFolders dir w' = (.ok (), w') := by
  have hl : Leads w'.root (absolute w' dir) loc entries := by
    rw [absolute_normal h.normal, hw.root_eq]
    exact h.holds.leads h.running.wellFormed h.normal.endsWithSeparator
  exact makeFolders_of_leads h.normal.ne_empty hl

theorem makeFolders_passes (h : Open dir loc entries w) (hp : P w.root) :
    Passes P (Files.makeFolders dir) w := by
  intro w' hw
  rw [h.makeFolders_like hw, hw.root_eq]
  exact hp

theorem removeAll_passes (h : Open dir loc entries w) (hn : IsName name)
    (hq : ∀ entries', (∀ key, key ≠ name → entries'.lookup key = entries.lookup key) → Q entries') :
    Passes (Lies dir Q) (Files.removeAll (dir ++ "/" ++ name)) w := by
  have hl := h.holds.leads h.running.wellFormed h.normal.endsWithSeparator
  refine h.passes_within (fun w' hw => ?_) hq
  refine removeAll_within (hw.root_eq.symm ▸ h.running.wellFormed) (by simp) fun place hp => ?_
  rw [absolute_child h.normal, hw.root_eq] at hp
  exact hl.child_location h.running.wellFormed hn hp

theorem removePath_passes (h : Open dir loc entries w) (hn : IsName name)
    (hq : ∀ entries', (∀ key, key ≠ name → entries'.lookup key = entries.lookup key) → Q entries') :
    Passes (Lies dir Q) (Cache.removePath (dir ++ "/" ++ name)) w := by
  refine .bind_observes (h.removeAll_passes hn hq).attempt fun result => ?_
  cases result with
  | ok _ => exact .pure _
  | error failure => exact .bind (Returns.warnFailed _ _ _).observes fun _ => .pure _

/-- Writing a new file, however far it comes. -/
theorem writeFile_passes (h : Open dir loc entries w) (hn : IsName name)
    (hl : entries.lookup name = none) (content : Bytes) (hp : Q entries)
    (hq : ∀ bytes, Q (setEntry name (.file bytes w.stamp) entries)) :
    Passes (Lies dir Q) (writeFile (dir ++ "/" ++ name) content) w := by
  have hw := h.running.wellFormed
  refine Files.writeFile_passes hw (place?_child_free hw h.normal h.holds hn hl true) content
    (h.lies hp) fun bytes => ?_
  rw [put_child hw h.holds.at?_eq]
  exact h.lies_after (h.wellFormed.setEntry hn (.file _ _)) (hq bytes)

end Open

theorem Lies.of_stands (h : Stands shared cache entries w) (hq : Q entries) :
    Lies cache.directory Q w.root := by
  rcases h.shelf with ⟨hm, rfl⟩ | ⟨loc, ho⟩
  · exact ⟨hm.running.wellFormed, hm.running.folder, .inl ⟨hm.absent, hq⟩⟩
  · exact ho.lies hq

/-- While a document is written, only its draft changes, until that takes its place. -/
theorem install_passes (h : Open dir loc entries w) (ht : Tidy entries) (bytes : Bytes)
    (hq : ∀ entries', (∀ key, key ≠ draftName w.processId →
      entries'.lookup key = entries.lookup key) →
      (∀ node, entries'.lookup (draftName w.processId) = some node → node.isFile = true) →
      Q entries')
    (hdone : Q (setEntry documentName (.file bytes w.stamp) entries)) :
    Passes (Lies dir Q) (Store.install dir w.processId bytes) w := by
  have hsorted := h.wellFormed.sorted
  have hdraft := isName_draftName h.running.process
  have hfree := ht.draft_free w.processId
  have hwritten (bytes' : Bytes) : Q (setEntry (draftName w.processId) (.file bytes' w.stamp) entries) := by
    refine hq _ (fun key hk => ?_) fun node hl => ?_
    · rw [lookup_setEntry hsorted, if_neg hk]
    · rw [lookup_setEntry hsorted, if_pos rfl] at hl
      cases hl
      rfl
  have hbefore : Q entries := hq entries (fun _ _ => rfl) fun node hl => nomatch hfree.symm.trans hl
  have hwrite := writeFile_child h.running.steps h.running.wellFormed h.normal h.holds hdraft
    (fun node hl => nomatch hfree.symm.trans hl) bytes
  obtain ⟨w₁, hinstall, he₁⟩ := install_writable h (ht.writable w.processId) bytes
  rw [ht.written hsorted] at he₁
  rw [Store.install, documentPath_eq h.normal, draftPath_eq h.normal] at hinstall ⊢
  refine .bind (writeFile_orderly _ _) h.running.steps
    (h.writeFile_passes hdraft hfree bytes hbefore hwritten) fun _ w₂ hx => ?_
  obtain ⟨w₃, hx₃, he₃⟩ := hwrite
  cases hx₃.symm.trans hx
  have ho := h.put (h.wellFormed.setEntry hdraft (.file _ _)) he₃
  rw [bind_ok hx] at hinstall
  refine (rename_atomic _ _).passes (rename_orderly _ _) ho.running.steps (ho.lies (hwritten bytes)) ?_
  rw [hinstall, he₁.root_eq]
  exact h.lies_after (h.wellFormed.setEntry isName_documentName (.file _ _)) hdone

theorem commit_passes {store : Store} {next : Records} {text : String}
    (h : Open store.root loc entries w) (ht : Tidy entries)
    (hs : Document.serialize next = .ok text)
    (hq : ∀ entries', (∀ key, key ≠ draftName w.processId →
      entries'.lookup key = entries.lookup key) →
      (∀ node, entries'.lookup (draftName w.processId) = some node → node.isFile = true) →
      Q entries')
    (hdone : Q (setEntry documentName (.file (Text.Utf8.encode text) w.stamp) entries)) :
    Passes (Lies store.root Q) (store.commit next) w := by
  have hbefore : Q entries := hq entries (fun _ _ => rfl) fun node hl =>
    nomatch (ht.draft_free w.processId).symm.trans hl
  rw [Store.commit_eq]
  refine .bind (makeFolders_orderly _) h.running.steps (h.makeFolders_passes (h.lies hbefore))
    fun _ w₁ hx => ?_
  cases h.makeFolders.symm.trans hx
  refine .get_bind (fun _ _ => rfl) ?_
  rw [hs]
  exact .bind_observes (install_passes h ht _ hq hdone) fun _ => .pure _

/-! ### What is left alone -/

/-- A name that no document lists: it is not the document's, and no record has it for its artifact. -/
def Dead (records : Records) (name : String) : Prop :=
  isDocumentName name = false ∧ ∀ e ∈ records, e.cacheId ≠ name

/-- The document lists the records, their artifacts are what they are among other entries, and there
are no drafts but files. -/
structure Spared (records : Records) (entries entries' : List (String × Node)) : Prop where
  listed : InSync entries' records
  artifacts : ∀ e ∈ records, entries'.lookup e.cacheId = entries.lookup e.cacheId
  drafts : ∀ name node, entries'.lookup name = some node → isDocumentName name = true →
    node.isFile = true

namespace Spared

theorem refl (hc : Consistent false entries records) : Spared records entries entries := by
  refine ⟨hc.inSync, fun _ _ => rfl, fun name node hl hn => ?_⟩
  obtain rfl := hc.tidy.only name node hl hn
  exact hc.tidy.isFile node hl

theorem congr (h : Spared records entries entries₁)
    (hl : ∀ name, ¬Dead records name → entries₂.lookup name = entries₁.lookup name) :
    Spared records entries entries₂ := by
  have hdoc {name : String} (hn : isDocumentName name = true) : ¬Dead records name := fun hd =>
    nomatch hd.1.symm.trans hn
  refine ⟨?_, fun e he => ?_, fun name node hn hname => ?_⟩
  · rw [InSync, hl _ (hdoc (by decide))]
    exact h.listed
  · rw [hl _ fun hd => hd.2 e he rfl, h.artifacts e he]
  · rw [hl _ (hdoc hname)] at hn
    exact h.drafts name node hn hname

/-- One entry that is no document's and no record's is changed. -/
theorem change (h : Spared records entries entries₁) (hn : Dead records name)
    (hl : ∀ key, key ≠ name → entries₂.lookup key = entries₁.lookup key) :
    Spared records entries entries₂ :=
  h.congr fun key hk => hl key fun heq => hk (heq ▸ hn)

/-- A draft is written. -/
theorem draft (h : Spared records entries entries₁)
    (hid : ∀ e ∈ records, isDocumentName e.cacheId = false) {processId : String}
    (hl : ∀ key, key ≠ draftName processId → entries₂.lookup key = entries₁.lookup key)
    (hf : ∀ node, entries₂.lookup (draftName processId) = some node → node.isFile = true) :
    Spared records entries entries₂ := by
  refine ⟨?_, fun e he => ?_, fun name node hn hname => ?_⟩
  · rw [InSync, hl _ (draftName_ne processId).symm]
    exact h.listed
  · rw [hl _ (ne_draftName (hid e he) processId), h.artifacts e he]
  · by_cases heq : name = draftName processId
    · exact hf node (heq ▸ hn)
    · rw [hl name heq] at hn
      exact h.drafts name node hn hname

/-- The artifacts may be compared with other entries that have the same ones. -/
theorem relative (h : Spared records entries entries₁)
    (hl : ∀ e ∈ records, entries₂.lookup e.cacheId = entries.lookup e.cacheId) :
    Spared records entries₂ entries₁ :=
  ⟨h.listed, fun e he => (h.artifacts e he).trans (hl e he).symm, h.drafts⟩

end Spared

/-! ### Eviction -/

theorem dead_of_not_keeps (h : cache.keeps name = false) : Dead cache.store.records name := by
  rw [keeps, Bool.or_eq_false_iff, List.any_eq_false] at h
  exact ⟨h.1, fun e he heq => h.2 e he (by simpa using heq)⟩

theorem sweepNames_passes {names : List String} (hn : ∀ name ∈ names, IsName name)
    (h : Open cache.directory loc entries₁ w) (hs : Spared cache.store.records entries entries₁) :
    Passes (Lies cache.directory (Spared cache.store.records entries)) (cache.sweepNames names) w := by
  induction names generalizing w entries₁ with
  | nil => exact .of_observes (.pure 0) (h.lies hs)
  | cons name rest ih =>
      have hname := hn name List.mem_cons_self
      have hrest := fun n (hmem : n ∈ rest) => hn n (List.mem_cons_of_mem _ hmem)
      rw [sweepNames]
      by_cases hk : cache.keeps name = true
      · rw [keeps] at hk
        simp only [hk, if_true, pure_bind]
        exact .bind_observes (ih hrest h hs) fun _ => .pure _
      · have hdead := dead_of_not_keeps (Bool.eq_false_iff.mpr hk)
        rw [keeps] at hk
        simp only [hk, Bool.false_eq_true, if_false]
        rw [h.normal.join_child (isStep_of_isName hname)]
        refine h.passes_bind (removePath_answers _).toOrderly
          (h.removePath_passes hname fun es hl => hs.change hdead hl) (h.removePath hname)
          (h.wellFormed.eraseEntry _) fun w' ho _ _ => ?_
        refine .bind_observes (ih hrest ho (hs.change hdead fun key hne => ?_)) fun _ => .pure _
        rw [lookup_eraseEntry h.wellFormed.sorted, if_neg hne]

theorem sweepOrphans_passes (h : Open cache.directory loc entries₁ w)
    (hs : Spared cache.store.records entries entries₁) :
    Passes (Lies cache.directory (Spared cache.store.records entries)) cache.sweepOrphans w := by
  have hnames : ∀ name ∈ entries₁.map (·.1), IsName name := by
    intro name hmem
    obtain ⟨e, he, rfl⟩ := List.mem_map.mp hmem
    exact h.wellFormed.isName (h.wellFormed.sorted.lookup_of_mem he)
  have hlist := attempt_ok (list_held h.running.wellFormed h.normal h.holds)
  refine .bind (list_orderly _).attempt h.running.steps
    (.of_observes (list_observes _).attempt (h.lies hs)) fun result w₁ hx => ?_
  cases hlist.symm.trans hx
  refine .bind_observes (sweepNames_passes hnames h hs) fun removed => ?_
  split
  · exact .bind (Returns.logFields _ _ _).observes fun _ =>
      .bind (Returns.trace _ _ _).observes fun _ => .pure _
  · exact .pure _

/-- Whatever is removed of the oldest artifacts, each is removed from the folder as it is then. -/
theorem removeOldest_passes {target : Number} {list : List Entry} {total : Number}
    (hid : ∀ e ∈ list, IsName e.cacheId) (h : Open cache.directory loc entries w) (hq : Q entries)
    (hone : ∀ e ∈ victims target list total, ∀ es es', Q es →
      (∀ key, key ≠ e.cacheId → es'.lookup key = es.lookup key) → Q es') :
    Passes (Lies cache.directory Q) (cache.removeOldest target list total) w := by
  induction list generalizing w entries total with
  | nil => exact .of_observes (.pure _) (h.lies hq)
  | cons entry rest ih =>
      rw [removeOldest]
      by_cases hdone : Number.atMost total target = true
      · rw [if_pos hdone]
        exact .of_observes (.pure _) (h.lies hq)
      · have hname := hid entry List.mem_cons_self
        rw [victims, if_neg hdone] at hone
        have hentry := hone entry List.mem_cons_self
        rw [if_neg hdone, removeArtifact, artifact,
          artifactPath_eq h.normal (isStep_of_isName hname)]
        refine h.passes_bind (removePath_answers _).toOrderly
          (h.removePath_passes hname fun es hl => hentry _ es hq hl) (h.removePath hname)
          (h.wellFormed.eraseEntry _) fun w' ho _ _ => ?_
        have hleft : Q (eraseEntry entry.cacheId entries) := hentry _ _ hq fun key hne => by
          rw [lookup_eraseEntry h.wellFormed.sorted, if_neg hne]
        rw [if_pos rfl]
        exact .bind_observes (ih (fun e he => hid e (List.mem_cons_of_mem _ he)) ho hleft
          fun e he => hone e (List.mem_cons_of_mem _ he)) fun _ => .pure _

theorem removeOldest_idle {target total : Number} {list : List Entry}
    (h : victims target list total = []) : cache.removeOldest target list total = pure ([], total) := by
  cases list with
  | nil => rfl
  | cons entry rest =>
      rw [victims] at h
      split at h
      · rename_i hdone
        rw [removeOldest, if_pos hdone]
      · cases h

theorem summary_observes (fields : List (String × Json)) (a : α) : Observes (do
    logFields .cache "cache eviction" fields
    traceInfo "cache.evict" fields
    return a) :=
  .bind (Returns.logFields _ _ _).observes fun _ =>
    .bind (Returns.trace _ _ _).observes fun _ => .pure _

/-- An eviction that drops no record only sweeps. -/
theorem evict_sweeps (hnone : cache.evicted = []) (h : Passes P cache.sweepOrphans w) :
    Passes P cache.evict w := by
  refine .bind_observes h fun _ => ?_
  rw [evicted] at hnone
  simp only at hnone ⊢
  split at hnone
  · rename_i hwithin
    rw [if_pos hwithin]
    exact .pure _
  · rename_i hover
    rw [if_neg hover, removeOldest_idle hnone, pure_bind]
    refine .bind (.attempt (.pure _)) fun result => ?_
    cases result with
    | ok store => exact summary_observes _ _
    | error failure =>
        exact .bind (Returns.warnFailed _ _ _).observes fun _ => summary_observes _ _

/-- The document lists the records, and the artifacts are what they are among other entries, but for
those of records that are going, of which anything may be left. -/
structure Thinned (records : Records) (going : List Entry)
    (entries entries' : List (String × Node)) : Prop where
  spared : Spared records entries' entries'
  staying : ∀ e ∈ records, e ∉ going → entries'.lookup e.cacheId = entries.lookup e.cacheId

theorem Spared.thinned (h : Spared records entries entries₁) (going : List Entry) :
    Thinned records going entries entries₁ :=
  ⟨h.relative h.artifacts, fun e he _ => h.artifacts e he⟩

namespace Thinned

variable {going : List Entry}

theorem congr (h : Thinned records going entries entries₁)
    (hdoc : ∀ name, isDocumentName name = true → entries₂.lookup name = entries₁.lookup name)
    (hl : ∀ e ∈ records, e ∉ going → entries₂.lookup e.cacheId = entries₁.lookup e.cacheId) :
    Thinned records going entries entries₂ := by
  refine ⟨⟨?_, fun _ _ => rfl, fun name node hn hname => ?_⟩, fun e he hstays => ?_⟩
  · rw [InSync, hdoc _ (by decide)]
    exact h.spared.listed
  · rw [hdoc name hname] at hn
    exact h.spared.drafts name node hn hname
  · rw [hl e he hstays, h.staying e he hstays]

/-- A draft is written. -/
theorem draft (h : Thinned records going entries entries₁)
    (hid : ∀ e ∈ records, isDocumentName e.cacheId = false) {processId : String}
    (hl : ∀ key, key ≠ draftName processId → entries₂.lookup key = entries₁.lookup key)
    (hf : ∀ node, entries₂.lookup (draftName processId) = some node → node.isFile = true) :
    Thinned records going entries entries₂ := by
  have hsame (e : Entry) (he : e ∈ records) :
      entries₂.lookup e.cacheId = entries₁.lookup e.cacheId :=
    hl _ (ne_draftName (hid e he) processId)
  exact ⟨(h.spared.draft hid hl hf).relative hsame, fun e he hstays =>
    (hsame e he).trans (h.staying e he hstays)⟩

end Thinned

/-- How far an eviction can come: until the new document is in its place, the old one lists the
records that are going; from then on what it lists is there. -/
def Partway (cache : Cache) (entries entries' : List (String × Node)) : Prop :=
  Thinned cache.store.records cache.evicted entries entries' ∨
    Spared cache.afterEviction.store.records entries entries'

theorem dropEvicted_passes (hroot : cache.store.root = cache.directory)
    (h : Open cache.directory loc entries₁ w) (hc : Consistent false entries₁ cache.store.records)
    (hs : Thinned cache.store.records cache.evicted entries entries₁) :
    Passes (Lies cache.directory (Partway cache entries))
      (cache.store.deleteMany (cache.evicted.map (·.signature))) w := by
  by_cases hidle : ∀ signature ∈ cache.evicted.map (·.signature),
      signature ∉ cache.store.records.view.keys
  · exact .congr (y := pure cache.store) (.of_observes (.pure _) (h.lies (.inl hs)))
      fun _ _ => Store.deleteMany_idle hidle
  · have hsorted := h.wellFormed.sorted
    have hfiled : ∀ e ∈ cache.afterEviction.store.records, Filed e := fun e he =>
      hc.filed e (Records.mem_erase.mp he).1
    obtain ⟨text, ht⟩ := Document.serialize_of_dated fun e he => (hfiled e he).dated
    have hnew : Consistent false (setEntry documentName (.file (Text.Utf8.encode text) w.stamp)
        entries₁) cache.afterEviction.store.records :=
      hc.commit hsorted ht hfiled (Records.nodup_erase hc.distinct _) w.stamp
    have hspared : Spared cache.afterEviction.store.records entries
        (setEntry documentName (.file (Text.Utf8.encode text) w.stamp) entries₁) := by
      refine (Spared.refl hnew).relative fun e he => ?_
      obtain ⟨hmem, hstays⟩ := Records.mem_erase.mp he
      rw [lookup_setEntry hsorted, if_neg (ne_documentName (hfiled e he).isId.not_document)]
      exact (hs.staying e hmem fun hgoes => hstays (List.mem_map_of_mem hgoes)).symm
    have hcommit := commit_passes (Q := Partway cache entries) (hroot.symm ▸ h) hc.tidy ht
      (fun es hl hfile => .inl (hs.draft (fun e he => (hc.filed e he).isId.not_document) hl hfile))
      (.inr hspared)
    rw [Store.deleteMany_commit hidle]
    rwa [hroot] at hcommit

theorem thinned_remaining (hc : Consistent false entries cache.store.records)
    (hids : (cache.store.records.map (·.cacheId)).Nodup) :
    Thinned cache.store.records cache.evicted entries (cache.remaining entries) := by
  have hdoc : ∀ e ∈ cache.store.records, isDocumentName e.cacheId = false := fun e he =>
    (hc.filed e he).isId.not_document
  refine ((Spared.refl hc).thinned _).congr (fun name => lookup_remaining_document hdoc)
    fun e he hstays => ?_
  rw [lookup_remaining, if_pos (spares_of_mem hids he hstays)]

/-- One removal of eviction touches the artifact of a record that is going, and nothing else. -/
theorem Thinned.remove {e : Entry}
    (h : Thinned cache.store.records cache.evicted entries entries₁)
    (hids : (cache.store.records.map (·.cacheId)).Nodup) (he : e ∈ cache.evicted)
    (hdoc : isDocumentName e.cacheId = false)
    (hl : ∀ key, key ≠ e.cacheId → entries₂.lookup key = entries₁.lookup key) :
    Thinned cache.store.records cache.evicted entries entries₂ := by
  refine h.congr (fun name hname => hl name ?_) fun e' he' hstays => hl _ fun heq => ?_
  · rintro rfl
    cases hname.symm.trans hdoc
  · exact hstays (List.inj_on_of_nodup_map hids he' (mem_records_of_mem_evicted he) heq ▸ he)

/-- Wherever an eviction is stopped, it has touched no artifact of a record that stays. -/
theorem evict_open_passes (hroot : cache.store.root = cache.directory)
    (h : Open cache.directory loc entries w) (hc : Consistent false entries cache.store.records)
    (hids : (cache.store.records.map (·.cacheId)).Nodup) :
    Passes (Lies cache.directory (Partway cache entries)) cache.evict w := by
  have hid : ∀ e ∈ cache.store.records, IsId e.cacheId := fun e he => (hc.filed e he).isId
  have hspared := Spared.refl hc
  have hkept : Spared cache.store.records entries (entries.filter fun e => cache.keeps e.1) :=
    hspared.congr fun name hn => by
      rw [lookup_filter cache.keeps, if_pos]
      exact not_not.mp fun hk => hn (dead_of_not_keeps (Bool.eq_false_iff.mpr hk))
  have hwf := h.wellFormed.filter fun e => cache.keeps e.1
  obtain ⟨count, hsweep⟩ := sweepOrphans_open h
  refine h.passes_bind (sweepOrphans_answers cache).toOrderly
    ((sweepOrphans_passes h hspared).mono fun _ hl => hl.mono fun _ hs => .inl (hs.thinned _))
    hsweep hwf fun w₁ ho₁ _ _ => ?_
  by_cases hfull : Number.atMost cache.store.records.totalBytes
      (cache.settings.maxSizeMB * bytesPerMB) = true
  · simp only [hfull, if_true]
    exact .of_observes (.pure _) (ho₁.lies (.inl (hkept.thinned _)))
  · have hgone : cache.evicted = victims (cache.settings.maxSizeMB * bytesPerMB * evictionTarget)
        cache.store.records.oldestFirst cache.store.records.totalBytes := by
      rw [evicted]
      exact if_neg hfull
    have hnames : ∀ e ∈ cache.store.records.oldestFirst, IsName e.cacheId := fun e hmem =>
      (hid e (List.mem_mergeSort.mp hmem)).isName
    have hpasses := removeOldest_passes hnames ho₁ (hkept.thinned cache.evicted)
      fun e he es es' hs hl => by
        rw [← hgone] at he
        exact hs.remove hids he (hid e (mem_records_of_mem_evicted he)).not_document hl
    obtain ⟨left, hremoved⟩ := removeOldest_open
      (cache.settings.maxSizeMB * bytesPerMB * evictionTarget) hnames ho₁
      cache.store.records.totalBytes
    rw [← hgone, filter_keeps] at hremoved
    simp only [hfull, Bool.false_eq_true, if_false]
    refine ho₁.passes_bind (removeOldest_answers cache _ _ _).toOrderly
      (hpasses.mono fun _ hl => hl.mono fun _ => .inl) hremoved (wellFormed_remaining h.wellFormed)
      fun w₂ ho₂ _ _ => ?_
    have hdrop := dropEvicted_passes hroot ho₂ (hc.filter cache.spares (spares_document
      (fun e he => (hid e he).not_document) (by decide))) (thinned_remaining hc hids)
    refine .bind_observes hdrop.attempt fun result => ?_
    cases result with
    | ok store => exact summary_observes _ _
    | error failure =>
        exact .bind (Returns.warnFailed _ _ _).observes fun _ => summary_observes _ _

theorem Closed.sweepOrphans_passes (h : Closed cache.directory w) (hp : P w.root) :
    Passes P cache.sweepOrphans w := by
  obtain ⟨failure, hlist⟩ := h.list
  refine .bind (list_orderly _).attempt h.running.steps
    (.of_observes (list_observes _).attempt hp) fun result w₁ hx => ?_
  cases (attempt_failed hlist).symm.trans hx
  exact .of_observes (.bind (Returns.logFields _ _ _).observes fun _ => .pure _) hp

/-- Wherever an eviction is stopped, where the cache stands. -/
theorem evict_stops (h : Stands false cache entries w)
    (hids : (cache.store.records.map (·.cacheId)).Nodup) :
    Passes (Lies cache.directory (Partway cache entries)) cache.evict w := by
  rcases h.shelf with ⟨hm, rfl⟩ | ⟨loc, ho⟩
  · exact evict_sweeps (evicted_of_empty h.records_eq_nil) (hm.closed.sweepOrphans_passes
      (.of_stands h (.inl ((Spared.refl h.consistent).thinned _))))
  · exact evict_open_passes h.root_eq ho h.consistent hids

end ScriptPack.Cache

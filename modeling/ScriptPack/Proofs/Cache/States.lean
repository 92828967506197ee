import ScriptPack.Proofs.Cache.Confinement
import ScriptPack.Proofs.Cache.Healing
import ScriptPack.Proofs.Cache.Stability

/-!
The states of caches. Whatever the world is in which a cache is opened and called, its records have
distinct signatures, times that can be written and ids that are names. The only ids that come up later
are made by the cache itself, so that it never takes its document for an artifact, unless it was opened
with a record that claims the document (`Later.apart`).
-/

namespace ScriptPack

open Effect Node Files

namespace Effect

variable {α β : Type} {x : Effect α} {f : α → Effect β} {P Q : α → Prop} {R : β → Prop}

/-- What the operation returns, if it returns, has the property. -/
def Yields (P : α → Prop) (x : Effect α) : Prop := ∀ w a w', x w = (.ok a, w') → P a

namespace Yields

theorem any (x : Effect α) : Yields (fun _ => True) x := fun _ _ _ _ => trivial

theorem pure {a : α} (h : P a) : Yields P (pure a) := by
  intro w b w' hx
  cases hx
  exact h

theorem fail (failure : Failure) : Yields P (fail failure : Effect α) := by
  intro w a w' hx
  cases hx

theorem bind (hx : Yields P x) (hf : ∀ a, P a → Yields R (f a)) : Yields R (x >>= f) := by
  intro w b w'' h
  obtain ⟨a, w', ha, hb⟩ := bind_eq_ok h
  exact hf a (hx w a w' ha) w' b w'' hb

/-- What is returned first does not matter. -/
theorem after (hf : ∀ a, Yields R (f a)) : Yields R (x >>= f) := (any x).bind fun a _ => hf a

/-- Both what goes on after a success and what is done about a failure have to be looked at. -/
theorem recover {g : Except Failure α → Effect β} (hx : Yields P x)
    (hok : ∀ a, P a → Yields R (g (.ok a))) (herror : ∀ failure, Yields R (g (.error failure))) :
    Yields R (attempt x >>= g) := by
  intro w b w'' h
  obtain ⟨result, w', hresult, hb⟩ := bind_eq_ok h
  cases result with
  | ok a => exact hok a (hx w a w' (eq_ok_of_attempt hresult)) w' b w'' hb
  | error failure => exact herror failure w' b w'' hb

theorem ite {p : Prop} [Decidable p] {y : Effect α} (hx : Yields P x) (hy : Yields P y) :
    Yields P (if p then x else y) := by
  split
  · exact hx
  · exact hy

end Yields

end Effect

namespace Cache

variable {cache : Cache} {records : Records} {entry : Entry} {signature dir : String}

/-! ### Opening -/

theorem readRecords_yields (dir : String) : Yields Listable (Store.readRecords dir) := by
  refine .after fun bytes => ?_
  split
  · rename_i records hparse
    exact .pure ⟨(Document.arranged_parse hparse).1, Document.dated_of_parse hparse,
      isName_of_parse hparse⟩
  · exact .fail _

theorem loadStore_yields (dir : String) :
    Yields (fun store => store.root = dir ∧ Listable store.records) (Store.load dir) := by
  have hempty : dir = dir ∧ Listable [] := ⟨rfl, .empty⟩
  refine .after fun there => .ite (.pure hempty) ?_
  refine (readRecords_yields dir).recover (fun records h => .pure ⟨rfl, h⟩) fun failure => ?_
  exact .after fun _ => .pure hempty

theorem load_yields (settings : CacheSettings) : Yields Proper (load settings) := by
  have hresolve : Yields Path.IsResolved (resolvePath settings.directory) :=
    .after fun w => .pure (Path.resolve_isNormal _ _)
  refine hresolve.bind fun directory hd => (loadStore_yields directory).bind fun store hs => ?_
  exact .pure ⟨hs.1, hd, hs.2⟩

/-! ### Changing records -/

/-- A cache of which all is known that is known of every cache, and all of whose ids have a property. -/
structure Carries (P : String → Prop) (cache : Cache) : Prop where
  proper : Proper cache
  ids : ∀ e ∈ cache.store.records, P e.cacheId

variable {P : String → Prop}

/-- Records that were written have times; what else they need is known before. -/
theorem Carries.commit (h : Carries P cache) (hdistinct : (records.map (·.signature)).Nodup)
    (hids : ∀ e ∈ records, IsName e.cacheId ∧ P e.cacheId) :
    Yields (fun store => Carries P { cache with store }) (cache.store.commit records) := by
  refine .after fun _ => .after fun w => ?_
  split
  · exact .fail _
  · rename_i text ht
    refine .after fun _ => .after fun _ => .pure ⟨?_, fun e he => (hids e he).2⟩
    exact ⟨h.proper.root, h.proper.resolved, hdistinct, Document.dated_of_serialize ht,
      fun e he => (hids e he).1⟩

theorem Carries.deleteMany (h : Carries P cache) (signatures : List String) :
    Yields (fun store => Carries P { cache with store }) (cache.store.deleteMany signatures) := by
  have hrest := h.proper.records.erase signatures
  refine .ite (h.commit hrest.distinct fun e he => ⟨hrest.ids e he, ?_⟩) (.pure h)
  exact h.ids e (Records.mem_erase.mp he).1

theorem Carries.set (h : Carries P cache) (hid : IsName entry.cacheId ∧ P entry.cacheId) :
    Yields (fun store => Carries P { cache with store }) (cache.store.set entry) :=
  h.commit (Records.nodup_set h.proper.records.distinct entry) fun e he =>
    (Records.mem_set he).elim (· ▸ hid) fun he => ⟨h.proper.records.ids e he.1, h.ids e he.1⟩

/-! ### Calls -/

theorem Carries.evict (h : Carries P cache) :
    Yields (fun result => Carries P result.2) cache.evict := by
  refine .after fun _ => .ite (.pure h) (.after fun (removed, left) => ?_)
  refine (h.deleteMany removed).recover (fun store hs => ?_) fun failure => ?_
  · exact (Yields.pure hs).bind fun cache' h' => .after fun _ => .after fun _ => .pure h'
  · refine .after fun _ => (Yields.pure h).bind fun cache' h' => ?_
    exact .after fun _ => .after fun _ => .pure h'

theorem Carries.record (h : Carries P cache) (hid : IsName entry.cacheId ∧ P entry.cacheId) :
    Yields (fun result => Carries P result.2) (cache.record entry) := by
  refine (h.set hid).recover (fun store hs => ?_) fun failure => ?_
  · refine .after fun _ => .after fun _ => .after fun _ => ?_
    exact (Carries.evict hs).bind fun result h' => .pure h'
  · exact .after fun _ => .after fun _ => .pure h

theorem Carries.keepAs (h : Carries P cache) {id : String} (hid : IsName id ∧ P id)
    (signature script invocation output : String) :
    Yields (fun result => Carries P result.2)
      (cache.keepAs id signature script invocation output) := by
  refine (Yields.any _).recover (fun size _ => ?_) fun failure => ?_
  · exact .after fun w => .after fun path => h.record hid
  · exact .after fun _ => .after fun _ => .after fun _ => .pure h

theorem mintId_yields (hs : Signature.IsDigest signature) : Yields IsId (cache.mintId signature) := by
  intro w id w' hx
  obtain ⟨n, hx'⟩ := mintId_numbered cache signature w
  cases hx.symm.trans hx'
  exact (isId_baseId hs w.clock).numbered n

theorem signature?_yields (script invocation : String) :
    Yields (fun found => ∀ signature, found = some signature → Signature.IsDigest signature)
      (signature? script invocation) := by
  intro w found w' hx
  rcases signature?_cases script invocation w with ⟨signature, hs, hx'⟩ | ⟨w₁, hx', -⟩
  · cases hx.symm.trans hx'
    intro _ heq
    cases heq
    exact isDigest_of_signature hs
  · cases hx.symm.trans hx'
    exact nofun

/-- Only here does an id come up that was not there before, and the cache has made it itself. -/
theorem Carries.keep (h : Carries P cache) (hminted : ∀ id, IsId id → P id)
    (script invocation output : String) (expected : Option String) :
    Yields (fun result => Carries P result.2)
      (cache.keep script invocation output expected) := by
  refine .ite (.pure h) (.after fun there => .ite (.after fun _ => .pure h) ?_)
  refine (signature?_yields script invocation).bind fun found hfound => ?_
  split
  · exact .pure h
  · rename_i signature
    refine .ite (.after fun _ => .pure h) ((mintId_yields (hfound signature rfl)).bind fun id hid => ?_)
    exact h.keepAs ⟨hid.isName, hminted id hid⟩ _ _ _ _

theorem Carries.clear (h : Carries P cache) :
    Yields (fun result => Carries P result.2) cache.clear := by
  have hempty : Yields (fun store => Carries P { cache with store }) (do
      Files.removeAll cache.directory
      cache.store.clear) :=
    .after fun _ => h.commit List.nodup_nil (by simp)
  refine hempty.recover (fun store hs => ?_) fun failure => ?_
  · exact .after fun _ => .pure hs
  · exact .after fun _ => .pure h

theorem Carries.lookupSignature (h : Carries P cache) (signature : String) :
    Yields (fun result => Carries P result.2) (cache.lookupSignature signature) := by
  have hdrop : Yields (Carries P) (cache.dropRecord signature) := by
    refine (h.deleteMany [signature]).recover (fun store hs => .pure hs) fun failure => ?_
    exact .after fun _ => .pure h
  refine .ite (.pure h) ?_
  split
  · exact .after fun _ => .after fun _ => .pure h
  · refine .after fun w => .ite ?_ (.after fun there => .ite ?_ ?_)
    · exact .after fun _ => .after fun _ => .pure h
    · exact .after fun _ => hdrop.bind fun cache' h' => .pure h'
    · exact .after fun _ => .after fun _ => .pure h

theorem Carries.lookup (h : Carries P cache) (script invocation : String) :
    Yields (fun result => Carries P result.2) (cache.lookup script invocation) := by
  refine .ite (.pure h) (.after fun found => ?_)
  split
  · exact .pure h
  · exact h.lookupSignature _

theorem Call.run_yields (h : Carries P cache) (hminted : ∀ id, IsId id → P id) (call : Call) :
    Yields (fun result => Carries P result.2) (call.run cache) := by
  cases call with
  | store script invocation output expected =>
      exact (h.keep hminted script invocation output expected).bind fun _ h' => .pure h'
  | lookup script invocation => exact (h.lookup script invocation).bind fun _ h' => .pure h'
  | lookupSignature signature => exact (h.lookupSignature signature).bind fun _ h' => .pure h'
  | evict => exact h.evict.bind fun _ h' => .pure h'
  | clear => exact h.clear.bind fun _ h' => .pure h'
  | update change => exact .pure ⟨⟨h.proper.root, h.proper.resolved, h.proper.records⟩, h.ids⟩

/-- The states that a cache can be in: it was opened once, and called since, and between any two
calls anything may have happened in the world. -/
inductive Arises : Cache → Prop
  | opened {settings : CacheSettings} {cache : Cache} {w w' : World}
      (h : load settings w = (.ok cache, w')) : Arises cache
  | called {cache cache' : Cache} {call : Call} {answer : Answer} {w w' : World}
      (ha : Arises cache) (h : call.run cache w = (.ok (answer, cache'), w')) : Arises cache'

theorem Arises.proper (h : Arises cache) : Proper cache := by
  induction h with
  | opened h => exact load_yields _ _ _ _ h
  | @called cache _ call _ _ _ _ h ih =>
      have hcarries : Carries (fun _ => True) cache := ⟨ih, fun _ _ => trivial⟩
      exact (Call.run_yields hcarries (fun _ _ => trivial) call _ _ _ h).proper

/-- What a cache comes to by calls, whatever happens in the world between any two of them. -/
inductive Later (opened : Cache) : Cache → Prop
  | refl : Later opened opened
  | called {cache cache' : Cache} {call : Call} {answer : Answer} {w w' : World}
      (h : Later opened cache) (hx : call.run cache w = (.ok (answer, cache'), w')) :
      Later opened cache'

/-- What holds of all ids at first and of those that caches make holds of all later ones. -/
theorem Later.carries {opened : Cache} (h : Later opened cache) (ho : Carries P opened)
    (hminted : ∀ id, IsId id → P id) : Carries P cache := by
  induction h with
  | refl => exact ho
  | called _ hx ih => exact Call.run_yields ih hminted _ _ _ _ hx

/-! ### Paths of artifacts -/

/-- A path is neither that of the document nor that of a draft. -/
def Apart (cache : Cache) (path : String) : Prop :=
  path ≠ documentPath cache.directory ∧ ∀ processId, path ≠ draftPath cache.directory processId

theorem exists_front (hd : Path.IsResolved dir) :
    ∃ front, ∀ name, Path.IsStep name → Path.join [dir, name] = front ++ name := by
  rcases hd with rfl | hd
  · refine ⟨"/", fun name hname => ?_⟩
    rw [Path.join_root hname]
    simp [Path.ofNames, Path.glue]
  · exact ⟨dir ++ "/", fun name hname => hd.join_child hname⟩

theorem Proper.apart (h : Proper cache) (he : entry ∈ cache.store.records)
    (hid : isDocumentName entry.cacheId = false) : cache.Apart (cache.artifact entry) := by
  obtain ⟨front, hfront⟩ := exists_front h.resolved
  have hartifact : cache.artifact entry = front ++ entry.cacheId :=
    hfront _ (Lookup.isStep_of_isName (h.records.ids entry he))
  have hdocument : documentPath cache.directory = front ++ documentName :=
    hfront _ isStep_documentName
  have hdraft (processId : String) :
      draftPath cache.directory processId = front ++ draftName processId := by
    rw [draftPath, hdocument, draftName]
    simp only [String.append_assoc]
  refine ⟨fun heq => ?_, fun processId heq => ?_⟩
  · rw [hartifact, hdocument, String.append_right_inj] at heq
    exact ne_documentName hid heq
  · rw [hartifact, hdraft, String.append_right_inj] at heq
    exact ne_draftName hid processId heq

/-- What a lookup returns is the path of an artifact. -/
theorem lookupSignature_artifact (cache : Cache) (signature : String) :
    Yields (fun result => ∀ path, result.1 = some path →
      ∃ e ∈ cache.store.records, path = cache.artifact e) (cache.lookupSignature signature) := by
  refine .ite (.pure (by simp)) ?_
  split
  · exact .after fun _ => .after fun _ => .pure (by simp)
  · rename_i entry hentry
    refine .after fun w => .ite ?_ (.after fun there => .ite ?_ ?_)
    · exact .after fun _ => .after fun _ => .pure (by simp)
    · exact .after fun _ => .after fun _ => .pure (by simp)
    · refine .after fun _ => .after fun _ => .pure fun path hpath => ?_
      exact ⟨entry, (Records.mem_of_get? hentry).1, (Option.some.inj hpath).symm⟩

/-- If no record in which a cache was opened claims a name of the document or of a draft, no record
ever does: those are not the paths of artifacts, which calls return and remove. -/
theorem Later.apart {opened : Cache} (h : Later opened cache) (ho : Arises opened)
    (hd : Distinguished opened) :
    (∀ e ∈ cache.store.records, cache.Apart (cache.artifact e)) ∧
      ∀ signature path w cache' w',
        cache.lookupSignature signature w = (.ok (some path, cache'), w') → cache.Apart path := by
  have hcarries : Carries (isDocumentName · = false) cache :=
    h.carries ⟨ho.proper, hd⟩ fun id hid => hid.not_document
  have hapart (e) (he : e ∈ cache.store.records) : cache.Apart (cache.artifact e) :=
    hcarries.proper.apart he (hcarries.ids e he)
  refine ⟨hapart, fun signature path w cache' w' hx => ?_⟩
  obtain ⟨e, he, rfl⟩ := lookupSignature_artifact cache signature w _ w' hx path rfl
  exact hapart e he

/-- A record that was put into the document by hand can claim the document: its name is a safe id. -/
example : isSafeId documentName = true := by decide

/-! ### Lookups -/

theorem distinguished_of_startsWith
    (h : ∀ e ∈ cache.store.records, Text.startsWith e.cacheId documentName = false) :
    Distinguished cache := by
  have hlonger {name longer : String} (hl : Text.startsWith name (longer ++ ".") = true) :
      Text.startsWith name longer = true := by
    rw [Text.startsWith, List.isPrefixOf_iff_prefix, String.toList_append] at hl
    rw [Text.startsWith, List.isPrefixOf_iff_prefix]
    exact (List.prefix_append _ _).trans hl
  intro e he
  rw [isDocumentName, Bool.or_eq_false_iff, beq_eq_false_iff_ne, ← Bool.not_eq_true]
  refine ⟨fun heq => ?_, fun hstart => ?_⟩
  · have hself := h e he
    rw [heq] at hself
    exact absurd hself (by decide)
  · cases (h e he).symm.trans (hlonger hstart)

/-- A lookup of a cache in any of its states answers with the artifact that it finds, and changes
nothing but that it drops the record of an artifact that is gone; the same lookup then changes
nothing. Two lookups may be made in either order. -/
theorem Arises.lookups (h : Arises cache)
    (hd : ∀ e ∈ cache.store.records, Text.startsWith e.cacheId documentName = false)
    {w : World} (hr : w.Running)
    (hl : ∀ name target, (name, Node.link target) ∉ contents cache.directory w) :
    (∀ signature, ∃ answer cache' w',
      cache.lookupSignature signature w = (.ok (answer, cache'), w') ∧
      (∀ path, answer = some path ↔ cache.Finds signature w path) ∧
      cache.Heals signature w cache' w' ∧
      Does (cache'.lookupSignature signature) w' (answer, cache') w'.root) ∧
    ∀ first second, ∃ answer answer' cache₁ cache₂ final w₁ w₂ w₁' w₂',
      cache.lookupSignature first w = (.ok (answer, cache₁), w₁) ∧
      cache₁.lookupSignature second w₁ = (.ok (answer', final), w₁') ∧
      cache.lookupSignature second w = (.ok (answer', cache₂), w₂) ∧
      cache₂.lookupSignature first w₂ = (.ok (answer, final), w₂') ∧
      Store.document? cache.directory w₁' = Store.document? cache.directory w₂' := by
  have hproper := h.proper
  have hdistinguished := distinguished_of_startsWith hd
  have hclean : Clean cache.directory w :=
    ⟨hr, hproper.resolved, fun name target hlook => hl name target (mem_of_lookup hlook)⟩
  exact ⟨lookupSignature_heals hproper hdistinguished hclean,
    lookupSignature_commutes hproper hdistinguished hclean⟩

/-- The artifact that was stored from `built` is looked up in a world where all files are gone. -/
theorem Arises.lookups_gone : ∃ (cache : Cache) (entry : Entry) (cache' : Cache) (w' : World),
    Arises cache ∧ cache.store.records = [entry] ∧
    Text.startsWith entry.cacheId documentName = false ∧
    (World.start (.folder [])).Running ∧ contents cache.directory (.start (.folder [])) = [] ∧
    cache.lookupSignature entry.signature (.start (.folder [])) = (.ok (none, cache'), w') ∧
    cache.Stale entry.signature (.start (.folder [])) ∧ cache'.store.records = [] := by
  obtain ⟨s, hrun, hcache, -⟩ := store_built
  have hdirectory : s.cache.directory = "/W/c" := by rw [hcache]; rfl
  have henabled : s.cache.settings.enabled = true := by rw [hcache]
  have hone : s.cache.store.records = [builtEntry] := by rw [hcache]
  have hname : Text.startsWith builtEntry.cacheId documentName = false := by decide +kernel
  have hexpired : s.cache.isExpired (World.start (.folder [])).clock builtEntry = false := by
    rw [hcache]
    decide +kernel
  obtain ⟨_, -, hopened, -⟩ := starts_built
  have harises : Arises s.cache := .called (.opened hopened) hrun
  have hrunning : (World.start (.folder [])).Running := World.start_running (by decide) ⟨_, rfl⟩
  have hempty : contents s.cache.directory (.start (.folder [])) = [] := by
    rw [hdirectory]
    decide +kernel
  have hnames : ∀ e ∈ s.cache.store.records, Text.startsWith e.cacheId documentName = false := by
    rw [hone]
    simpa using hname
  obtain ⟨hlookup, -⟩ := harises.lookups hnames hrunning (by rw [hempty]; exact nofun)
  obtain ⟨answer, cache', w', hx, hfinds, hheals, -⟩ := hlookup builtEntry.signature
  have hproper := harises.proper
  have hclean : Clean s.cache.directory (.start (.folder [])) :=
    ⟨hrunning, hproper.resolved, by rw [hempty]; exact nofun⟩
  have hget : s.cache.store.records.get? builtEntry.signature = some builtEntry := by
    rw [hone, Records.get?_cons, if_pos rfl]
  have hstale : s.cache.Stale builtEntry.signature (.start (.folder [])) := by
    refine ⟨builtEntry, (hproper.has_iff hclean).mpr ⟨henabled, hget, hexpired, ?_⟩⟩
    rw [hempty]
    rfl
  obtain rfl : answer = none := by
    refine Option.eq_none_iff_forall_ne_some.mpr fun path hsome => ?_
    obtain ⟨_, hhas, -⟩ := (hfinds path).mp hsome
    exact absurd (hstale.choose_spec.unique hhas).2 nofun
  refine ⟨s.cache, builtEntry, cache', w', harises, hone, hname, hrunning, hempty, hx, hstale, ?_⟩
  cases hheals with
  | idle hs => exact absurd hstale hs
  | barred _ hb =>
      rcases hb with ⟨failure, hf⟩ | ⟨loc, entries, hl, hw⟩
      · have hmade : (makeFolders "/W/c" (.start (.folder []))).1.toOption = some () := by
          decide +kernel
        rw [← hdirectory, hf] at hmade
        cases hmade
      · obtain rfl := (contents_of_leads hproper.resolved hl).symm.trans hempty
        exact absurd ⟨nofun, nofun⟩ hw
  | dropped => simp [withRecords, hone, Records.erase]

end Cache

end ScriptPack

import ScriptPack.Proofs.Cache.Guarded

/-!
Confinement of a cache. Whatever its document says, and whatever is in its folder, the calls of a
cache change nothing outside of that folder: the names that they remove, write and rename are names
of entries, and a folder that is reached without links holds its entries.
-/

namespace ScriptPack.Cache

open Effect Node Lookup Files

variable {dir : String} {w w' : World}

/-- A cache of a folder in whose records every artifact is named as an entry can be. -/
structure Named (dir : String) (cache : Cache) : Prop where
  directory : cache.directory = dir
  root : cache.store.root = dir
  ids : ∀ e ∈ cache.store.records, IsName e.cacheId

variable {cache : Cache} {records : Records} {entry : Entry} {signature : String}

theorem Named.with_records (hn : Named dir cache) (h : ∀ e ∈ records, IsName e.cacheId) :
    Named dir { cache with store := { cache.store with records } } :=
  ⟨hn.directory, hn.root, h⟩

theorem removeArtifact_stays (hn : Named dir cache) (h : Guarded dir w) (he : IsName entry.cacheId) :
    Stays dir (fun _ => True) (cache.removeArtifact entry) w := by
  rw [removeArtifact, artifact, hn.directory, artifactPath_eq h.normal (isStep_of_isName he)]
  exact removePath_stays h he

theorem sweepNames_stays (hn : Named dir cache) {names : List String}
    (hnames : ∀ name ∈ names, IsName name) (h : Guarded dir w) :
    Stays dir (fun _ => True) (cache.sweepNames names) w := by
  induction names generalizing w with
  | nil => exact .pure h trivial
  | cons name rest ih =>
      have hname := hnames name List.mem_cons_self
      have hrest {w : World} (h : Guarded dir w) (gone : Bool) : Stays dir (fun _ => True) (do
          let others ← cache.sweepNames rest
          return (if gone then 1 else 0) + others) w :=
        (ih (fun n hm => hnames n (List.mem_cons_of_mem _ hm)) h).bind fun _ w' _ h' _ =>
          .pure h' trivial
      rw [sweepNames]
      refine .ite (hrest h false) ?_
      rw [hn.directory, h.normal.join_child (isStep_of_isName hname)]
      exact (removePath_stays h hname).bind fun gone w' _ h' _ => hrest h' gone

theorem list_stays (h : Guarded dir w) (path : String) :
    Stays dir (fun entries => ∀ e ∈ entries, IsName e.1) (list path) w := by
  rw [list]
  refine Stays.bind_eq (P := fun _ => True) (.observe h (require_observes true path))
    fun found w' hx _ h' _ => ?_
  obtain ⟨loc, node⟩ := found
  cases node with
  | file content modified => exact .of_evolves h' (.refl w') fun _ hs => by cases hs
  | link target => exact .of_evolves h' (.refl w') fun _ hs => by cases hs
  | folder entries =>
      obtain ⟨hplace, -⟩ := require_eq_ok hx
      refine .pure h' ?_
      cases h.running.wellFormed.at? (place?_found hplace) with
      | folder _ _ hnames _ => exact hnames

theorem sweepOrphans_stays (hn : Named dir cache) (h : Guarded dir w) :
    Stays dir (fun _ => True) cache.sweepOrphans w := by
  rw [sweepOrphans]
  refine (list_stays h _).attempt.bind fun result w' hnames h' _ => ?_
  cases result with
  | error failure => exact .observe h' ((Returns.logFields _ _ _).bind fun _ => .pure _).observes
  | ok entries =>
      have hall : ∀ name ∈ entries.map (·.1), IsName name := by
        intro name hmem
        obtain ⟨e, he, rfl⟩ := List.mem_map.mp hmem
        exact hnames entries rfl e he
      refine (sweepNames_stays hn hall h').bind fun removed w'' _ h'' _ => ?_
      refine .ite (.observe h'' ?_) (.pure h'' trivial)
      exact ((Returns.logFields _ _ _).bind fun _ => (Returns.trace _ _ _).bind fun _ =>
        .pure _).observes

theorem removeOldest_stays (hn : Named dir cache) (target : Number) {list : List Entry}
    (hl : ∀ e ∈ list, IsName e.cacheId) (total : Number) (h : Guarded dir w) :
    Stays dir (fun _ => True) (cache.removeOldest target list total) w := by
  induction list generalizing w total with
  | nil => exact .pure h trivial
  | cons entry rest ih =>
      have hrest := fun e he => hl e (List.mem_cons_of_mem _ he)
      rw [removeOldest]
      refine .ite (.pure h trivial) ?_
      refine (removeArtifact_stays hn h (hl entry List.mem_cons_self)).bind fun gone w' _ h' _ => ?_
      exact .ite ((ih hrest _ h').bind fun _ w'' _ h'' _ => .pure h'' trivial) (ih hrest _ h')

theorem deleteMany_stays (hn : Named dir cache) (signatures : List String) (h : Guarded dir w) :
    Stays dir (fun store => Named dir { cache with store }) (cache.store.deleteMany signatures) w := by
  refine .ite ((commit_stays hn.root _ h).mono fun store hs => ?_) (.pure h hn)
  subst hs
  exact hn.with_records fun e he => hn.ids e (Records.mem_erase.mp he).1

theorem evict_stays (hn : Named dir cache) (h : Guarded dir w) :
    Stays dir (fun result => Named dir result.2) cache.evict w := by
  rw [evict]
  refine (sweepOrphans_stays hn h).bind fun _ w₁ _ h₁ _ => .ite (.pure h₁ hn) ?_
  refine (removeOldest_stays hn _ (fun e he => hn.ids e ?_) _ h₁).bind
    fun removal w₂ _ h₂ _ => ?_
  · exact List.mem_mergeSort.mp he
  obtain ⟨removed, left⟩ := removal
  refine (deleteMany_stays hn removed h₂).attempt.bind fun result w₃ hresult h₃ _ => ?_
  have hend {w : World} {cache : Cache} (hn : Named dir cache) (h : Guarded dir w) :
      Stays dir (fun result => Named dir result.2) (do
        logFields .cache "cache eviction"
          [("removed", Json.number (.ofNat removed.length)), ("totalBytes", .number left)]
        traceInfo "cache.evict"
          [("removed", Json.number (.ofNat removed.length)), ("totalBytes", .number left)]
        return (removed.length, cache)) w := by
    refine Stays.bind (.observe h (Returns.logFields _ _ _).observes) fun _ w' _ h' _ => ?_
    refine Stays.bind (.observe h' (Returns.trace _ _ _).observes) fun _ w'' _ h'' _ => ?_
    exact .pure h'' hn
  cases result with
  | ok store => exact hend (hresult store rfl) h₃
  | error failure =>
      refine Stays.bind (.observe h₃ (Returns.warnFailed _ _ _).observes) fun _ w₄ _ h₄ _ => ?_
      exact hend hn h₄

theorem removeOutdated_stays (hn : Named dir cache) (entry : Entry) (h : Guarded dir w) :
    Stays dir (fun _ => True) (cache.removeOutdated entry) w := by
  rw [removeOutdated]
  cases hg : cache.store.records.get? entry.signature with
  | none => exact .pure h trivial
  | some previous =>
      have hid := hn.ids previous (Records.mem_of_get? hg).1
      exact .ite ((removeArtifact_stays hn h hid).bind fun _ w' _ h' _ => .pure h' trivial)
        (.pure h trivial)

theorem record_stays (hn : Named dir cache) (hid : IsName entry.cacheId) (h : Guarded dir w) :
    Stays dir (fun result => Named dir result.2) (cache.record entry) w := by
  rw [record]
  refine (commit_stays hn.root _ h).attempt.bind fun result w₁ hresult h₁ _ => ?_
  cases result with
  | error failure =>
      refine (removeArtifact_stays hn h₁ hid).bind fun _ w₂ _ h₂ _ => ?_
      refine Stays.bind (.observe h₂ (Returns.warnFailed _ _ _).observes) fun _ w₃ _ h₃ _ => ?_
      exact .pure h₃ hn
  | ok store =>
      have hnamed : Named dir { cache with store } := by
        rw [hresult store rfl]
        refine hn.with_records fun e he => ?_
        rcases Records.mem_set he with rfl | ⟨hmem, -⟩
        · exact hid
        · exact hn.ids e hmem
      refine (removeOutdated_stays hn entry h₁).bind fun _ w₂ _ h₂ _ => ?_
      refine Stays.bind (.observe h₂ (Returns.logFields _ _ _).observes) fun _ w₃ _ h₃ _ => ?_
      refine Stays.bind (.observe h₃ (Returns.trace _ _ _).observes) fun _ w₄ _ h₄ _ => ?_
      exact (evict_stays hnamed h₄).bind fun _ w₅ hresult₅ h₅ _ => .pure h₅ hresult₅

theorem keepAs_stays (hn : Named dir cache) {id : String} (hid : IsId id)
    (script invocation output : String) (h : Guarded dir w) :
    Stays dir (fun result => Named dir result.2)
      (cache.keepAs id signature script invocation output) w := by
  have hartifact := artifactPath_eq h.normal (isStep_of_isName hid.isName)
  have hpartial := partialPath_eq h.normal (isStep_of_isName hid.isName)
  have hend {w : World} (h : Guarded dir w) (failure : Failure) :
      Stays dir (fun result => Named dir result.2) (do
        let _ ← removePath (partialPath (artifactPath dir id))
        let _ ← removePath (artifactPath dir id)
        warnFailed .cacheWriteFailed ("cannot copy " ++ output ++ " into the cache") failure
        return (false, cache)) w := by
    rw [hpartial, hartifact]
    refine (removePath_stays h hid.isName_partial).bind fun _ w' _ h' _ => ?_
    refine (removePath_stays h' hid.isName).bind fun _ w₁ _ h₁ _ => ?_
    refine Stays.bind (.observe h₁ (Returns.warnFailed _ _ _).observes) fun _ w₂ _ h₂ _ => ?_
    exact .pure h₂ hn
  rw [keepAs, hn.directory]
  refine (copyIn_stays hn.directory h hid output).attempt.bind fun result w₁ _ h₁ _ => ?_
  cases result with
  | error failure => exact hend h₁ failure
  | ok size =>
      let entry : Entry := ⟨signature, id, .ofNumber w₁.clock,
        Path.resolve w₁.workingDirectory script, invocation, .ofNat size⟩
      have hname : IsName entry.cacheId := hid.isName
      have hrecord := record_stays hn hname h₁
      exact hrecord.congr rfl

theorem mintId_stays (hd : Signature.IsDigest signature) (h : Guarded dir w) :
    Stays dir IsId (cache.mintId signature) w := by
  obtain ⟨n, hx⟩ := mintId_numbered cache signature w
  exact .congr (.pure h ((isId_baseId hd w.clock).numbered n)) hx

theorem exists?_stays (h : Guarded dir w) (path : String) :
    Stays dir (fun _ => True) (exists? path) w := by
  obtain ⟨there, hx⟩ := exists?_same path w
  exact .congr (.pure (a := there) h trivial) hx

theorem signature?_stays (h : Guarded dir w) (script invocation : String) :
    Stays dir (fun found => ∀ signature ∈ found, Signature.IsDigest signature)
      (signature? script invocation) w := by
  rcases signature?_cases script invocation w with ⟨signature, hs, hx⟩ | ⟨w', hx, he⟩
  · refine .congr (.pure h fun _ hmem => ?_) hx
    cases hmem
    exact isDigest_of_signature hs
  · refine .of_evolves h (by rw [hx]; exact he) fun found hf => ?_
    rw [hx] at hf
    cases hf
    exact nofun

theorem keep_stays (hn : Named dir cache) (script invocation output : String)
    (expected : Option String) (h : Guarded dir w) :
    Stays dir (fun result => Named dir result.2)
      (cache.keep script invocation output expected) w := by
  have hsay {w : World} (h : Guarded dir w) (text : String) (fields : List (String × Json)) :
      Stays dir (fun result => Named dir result.2) (do
        logFields .cache text fields
        return (false, cache)) w :=
    Stays.bind (.observe h (Returns.logFields _ _ _).observes) fun _ w' _ h' _ => .pure h' hn
  rw [keep]
  refine .ite (.pure h hn) ((exists?_stays h output).bind fun there w₁ _ h₁ _ => ?_)
  refine .ite (hsay h₁ _ _) ((signature?_stays h₁ _ _).bind fun found w₂ hfound h₂ _ => ?_)
  cases found with
  | none => exact .pure h₂ hn
  | some signature =>
      refine .ite (hsay h₂ _ _) ((mintId_stays (hfound signature rfl) h₂).bind ?_)
      exact fun id w₃ hid h₃ _ => keepAs_stays hn hid _ _ _ h₃

theorem dropRecord_stays (hn : Named dir cache) (h : Guarded dir w) :
    Stays dir (Named dir) (cache.dropRecord signature) w := by
  rw [dropRecord]
  refine (deleteMany_stays hn [signature] h).attempt.bind fun result w₁ hresult h₁ _ => ?_
  cases result with
  | error failure =>
      refine Stays.bind (.observe h₁ (Returns.warnFailed _ _ _).observes) fun _ w₂ _ h₂ _ => ?_
      exact .pure h₂ hn
  | ok store => exact .pure h₁ (hresult store rfl)

theorem lookupSignature_stays (hn : Named dir cache) (signature : String) (h : Guarded dir w) :
    Stays dir (fun result => Named dir result.2) (cache.lookupSignature signature) w := by
  have hsay {w : World} (h : Guarded dir w) {saying saying' : Effect Unit} (hs : Returns saying)
      (hs' : Returns saying') (answer : Option String) :
      Stays dir (fun result => Named dir result.2) (do saying; saying'; return (answer, cache)) w :=
    Stays.bind (.observe h hs.observes) fun _ w' _ h' _ =>
      Stays.bind (.observe h' hs'.observes) fun _ w'' _ h'' _ => .pure h'' hn
  rw [lookupSignature]
  refine .ite (.pure h hn) ?_
  cases cache.store.records.get? signature with
  | none => exact hsay h (.logFields _ _ _) (.trace _ _ _) none
  | some entry =>
      refine .congr ?_ (bind_ok (get_apply w))
      refine .ite (hsay h (.logFields _ _ _) (.trace _ _ _) none) ?_
      refine (exists?_stays h _).bind fun there w₁ _ h₁ _ => .ite ?_ ?_
      · refine Stays.bind (.observe h₁ (Returns.trace _ _ _).observes) fun _ w₂ _ h₂ _ => ?_
        exact (dropRecord_stays hn h₂).bind fun cache' w₃ hn' h₃ _ => .pure h₃ hn'
      · exact hsay h₁ (.logFields _ _ _) (.trace _ _ _) _

theorem lookup_stays (hn : Named dir cache) (script invocation : String) (h : Guarded dir w) :
    Stays dir (fun result => Named dir result.2) (cache.lookup script invocation) w := by
  rw [Cache.lookup]
  refine .ite (.pure h hn) ((signature?_stays h _ _).bind fun found w₁ _ h₁ _ => ?_)
  cases found with
  | none => exact .pure h₁ hn
  | some signature => exact lookupSignature_stays hn signature h₁

/-- The folder is removed with all that is in it, or whatever is in its place. -/
theorem removeFolder_stays (h : Guarded dir w) : Stays dir (fun _ => True) (removeAll dir) w := by
  have hw := h.running.wellFormed
  have hsame {result : Except Stop Unit} (hx : removeAll dir w = (result, w)) :
      Stays dir (fun _ => True) (removeAll dir) w :=
    .of_evolves h (by rw [hx]; exact .refl w) fun _ _ => trivial
  have habs := absolute_normal h.normal (w := w)
  cases hp : place? w.root false (absolute w dir) with
  | error error =>
      by_cases hne : error = .noEntry
      · exact hsame (removeAll_noEntry (hne ▸ hp))
      · exact hsame (removeAll_error hp hne)
  | ok place =>
      cases place with
      | free loc => exact hsame (removeAll_free hp)
      | found loc node =>
          have hdirect := hp
          rw [habs] at hdirect
          have hloc := h.straight.location h.normal hdirect
          obtain rfl : loc = Path.names dir := hloc
          have hne := h.normal.names_ne_nil
          obtain ⟨w', hx, he⟩ := removeAll_found hne h.running.steps hw hp
          have hwithin : Within (Path.names dir) w.root w'.root := by
            rw [he.root_eq]
            exact .remove hw hne
          have hgone : w'.root.at? (Path.names dir) = none := by
            rw [he.root_eq]
            exact at?_remove_self hw hne
          refine ⟨?_, by rw [Moves, hx]; exact .of_within hwithin, by rw [hx]; exact he.later,
            fun _ _ => trivial⟩
          rw [hx]
          refine ⟨h.running.evolve he (hw.remove _) (h.running.folder.remove hne), h.normal,
            fun other hother target hat => ?_, fun target hat => ?_⟩
          · by_cases hself : Path.names dir <+: other
            · obtain rfl : other = Path.names dir := hother.eq_of_length_le hself.length_le
              cases hgone.symm.trans hat
            · exact h.straight other hother target (link_of_bare_eq (hwithin.bare_eq hself) hat)
          · rw [at?_append, hgone] at hat
            cases hat

theorem clear_stays (hn : Named dir cache) (h : Guarded dir w) :
    Stays dir (fun result => Named dir result.2) cache.clear w := by
  have hremove : Stays dir (fun store => Named dir { cache with store }) (do
      removeAll dir
      cache.store.clear) w :=
    (removeFolder_stays h).bind fun _ w' _ h' _ =>
      (commit_stays hn.root [] h').mono fun store hs => hs ▸ hn.with_records nofun
  rw [clear, hn.directory]
  refine hremove.attempt.bind fun result w₁ hresult h₁ _ => ?_
  cases result with
  | error failure =>
      refine Stays.bind (.observe h₁ (Returns.warnFailed _ _ _).observes) fun _ w₂ _ h₂ _ => ?_
      exact .pure h₂ hn
  | ok store =>
      refine Stays.bind (.observe h₁ (Returns.logFields _ _ _).observes) fun _ w₂ _ h₂ _ => ?_
      exact .pure h₂ (hresult store rfl)

theorem Call.run_stays (hn : Named dir cache) (call : Call) (h : Guarded dir w) :
    Stays dir (fun result => Named dir result.2) (call.run cache) w := by
  cases call with
  | store script invocation output expected =>
      exact (keep_stays hn _ _ _ _ h).bind fun _ w' hn' h' _ => .pure h' hn'
  | lookup script invocation =>
      exact (lookup_stays hn _ _ h).bind fun _ w' hn' h' _ => .pure h' hn'
  | lookupSignature signature =>
      exact (lookupSignature_stays hn _ h).bind fun _ w' hn' h' _ => .pure h' hn'
  | evict => exact (evict_stays hn h).bind fun _ w' hn' h' _ => .pure h' hn'
  | clear => exact (clear_stays hn h).bind fun _ w' hn' h' _ => .pure h' hn'
  | update change => exact .pure h ⟨hn.directory, hn.root, hn.ids⟩

/-! ### Whatever the document says -/

theorem isName_of_isSafeId {id : String} (h : isSafeId id = true) : IsName id := by
  simp only [isSafeId, Bool.and_eq_true, bne_iff_ne, ne_eq, Bool.not_eq_true',
    List.all_eq_true] at h
  obtain ⟨⟨⟨hne, hall⟩, hdot⟩, hup⟩ := h
  refine ⟨fun h => by simp [h] at hne, hdot, hup, fun hc => ?_, fun hc => ?_⟩
  · exact absurd (hall _ hc) (by decide)
  · exact absurd (hall _ hc) (by decide)

theorem isName_of_entry? {record : Json} (h : Document.entry? signature record = some entry) :
    IsName entry.cacheId := by
  simp only [Document.entry?] at h
  split at h
  · split at h
    · cases h
    · rename_i hid
      split at h
      · cases h
      · cases h
        exact isName_of_isSafeId (by simpa using hid)
  · cases h

theorem isName_of_parse {text : String} (h : Document.parse text = .ok records) :
    ∀ e ∈ records, IsName e.cacheId := by
  simp only [Document.parse] at h
  split at h
  · cases h
  · cases h
    intro e he
    obtain ⟨⟨signature, record⟩, -, hentry⟩ := List.mem_filterMap.mp he
    exact isName_of_entry? hentry
  · cases h
    simp

theorem isName_of_readRecords (h : (Store.readRecords dir w).1 = .ok records) :
    ∀ e ∈ records, IsName e.cacheId := by
  rcases read_same (documentPath dir) w with ⟨bytes, hb⟩ | ⟨failure, hf⟩
  · rw [Store.readRecords, bind_ok hb] at h
    cases hp : Document.parse (String.ofList (Text.Utf8.decode bytes)) with
    | error failure =>
        rw [hp] at h
        cases h
    | ok found =>
        rw [hp] at h
        cases h
        exact isName_of_parse hp
  · rw [Store.readRecords, bind_error hf] at h
    cases h

theorem loadStore_stays (h : Guarded dir w) :
    Stays dir (fun store => store.root = dir ∧ ∀ e ∈ store.records, IsName e.cacheId)
      (Store.load dir) w := by
  have hread : Stays dir (fun records => ∀ e ∈ records, IsName e.cacheId)
      (Store.readRecords dir) w := by
    refine .of_evolves h ?_ fun records => isName_of_readRecords
    rcases Store.readRecords_same dir w with ⟨records, hx⟩ | ⟨failure, hx⟩
    · rw [hx]
      exact .refl w
    · rw [hx]
      exact .refl w
  rw [Store.load]
  obtain ⟨there, hx⟩ := exists?_same (documentPath dir) w
  refine .congr ?_ (bind_ok hx)
  refine .ite (.pure h ⟨rfl, by simp⟩) (hread.attempt.bind fun result w₁ hresult h₁ _ => ?_)
  cases result with
  | ok records => exact .pure h₁ ⟨rfl, hresult records rfl⟩
  | error failure =>
      refine Stays.bind (.observe h₁ (Returns.observes fun w => ⟨(), warn_does _ w⟩)) fun _ w₂ _ h₂ _ => ?_
      exact .pure h₂ ⟨rfl, by simp⟩

theorem load_stays {settings : CacheSettings} (h : Guarded dir w)
    (hroot : Path.resolve w.workingDirectory settings.directory = dir) :
    Stays dir (Named dir) (load settings) w := by
  subst hroot
  have hpath : resolvePath settings.directory w =
      (.ok (Path.resolve w.workingDirectory settings.directory), w) := bind_ok (get_apply w)
  refine .congr ((loadStore_stays h).bind fun store w' hs h' _ => .pure h' ?_) (bind_ok hpath)
  exact ⟨rfl, hs.1, hs.2⟩

/-! ### Runs -/

/-- What can be asked of the caches of a folder: one more is opened, a script is signed, or one of
those that are open is called. -/
inductive Operation
  | open (settings : CacheSettings)
  | sign (script invocation : String)
  | perform (index : Nat) (call : Call)

def Operation.run (caches : List Cache) : Operation → Effect (List Cache)
  | .open settings => return caches ++ [← load settings]
  | .sign script invocation => do
    let _ ← signature? script invocation
    return caches
  | .perform index call =>
    match caches[index]? with
    | none => return caches
    | some cache => do
      let (_, cache) ← call.run cache
      return caches.set index cache

/-- Performs operations at different times, one after the other, also after one that fails. -/
def Operation.runAll (caches : List Cache) : List (Number × Stamp × Operation) → Effect (List Cache)
  | [] => return caches
  | (clock, stamp, operation) :: rest => do
    modify fun w => { w with clock, stamp }
    match ← attempt (operation.run caches) with
    | .ok caches => runAll caches rest
    | .error _ => runAll caches rest

theorem Operation.run_stays {caches : List Cache} (hn : ∀ cache ∈ caches, Named dir cache)
    (operation : Operation) (h : Guarded dir w) (ho : ∀ settings, operation = .open settings →
      Path.resolve w.workingDirectory settings.directory = dir) :
    Stays dir (fun caches => ∀ cache ∈ caches, Named dir cache) (operation.run caches) w := by
  cases operation with
  | «open» settings =>
      refine (load_stays h (ho settings rfl)).bind fun cache w' hn' h' _ => .pure h' fun other hm => ?_
      rcases List.mem_append.mp hm with hm | hm
      · exact hn other hm
      · exact List.mem_singleton.mp hm ▸ hn'
  | sign script invocation =>
      exact (signature?_stays h _ _).bind fun _ w' _ h' _ => .pure h' hn
  | perform index call =>
      rw [Operation.run]
      cases hc : caches[index]? with
      | none => exact .pure h hn
      | some cache =>
          refine (call.run_stays (hn cache (List.mem_of_getElem? hc)) h).bind
            fun ⟨_, cache'⟩ w' hn' h' _ => .pure h' fun other hm => ?_
          rcases List.mem_or_eq_of_mem_set hm with hm | rfl
          · exact hn other hm
          · exact hn'

theorem Operation.runAll_confined {caches : List Cache} (hn : ∀ cache ∈ caches, Named dir cache)
    (operations : List (Number × Stamp × Operation)) (h : Guarded dir w)
    (ho : ∀ clock stamp settings, (clock, stamp, .open settings) ∈ operations →
      Path.resolve w.workingDirectory settings.directory = dir) :
    Moves (Confined (Path.names dir)) (runAll caches operations) w := by
  induction operations generalizing caches w with
  | nil => exact .pure (.refl h.running.wellFormed _) _
  | cons first rest ih =>
      obtain ⟨clock, stamp, operation⟩ := first
      let w₁ := { w with clock, stamp }
      have h₁ : Guarded dir w₁ :=
        ⟨⟨h.running.steps, h.running.wellFormed, h.running.folder, h.running.current,
          h.running.process⟩, h.normal, h.straight, h.draft⟩
      have hrun := (operation.run_stays hn h₁ fun settings hs =>
        ho clock stamp settings (hs ▸ List.mem_cons_self)).attempt
      have hbegin : runAll caches ((clock, stamp, operation) :: rest) w = (do
          match ← attempt (operation.run caches) with
          | .ok caches => runAll caches rest
          | .error _ => runAll caches rest) w₁ := bind_ok (modify_apply _ w)
      rw [Moves, hbegin]
      refine Moves.bind (w := w₁) hrun.confined fun result w' hx => ?_
      have hlater := hrun.later
      have h' := hrun.guarded
      have hreturns := hrun.returns
      rw [hx] at hlater h' hreturns
      have hrest (clock : Number) (stamp : Stamp) (settings : CacheSettings)
          (hs : (clock, stamp, .open settings) ∈ rest) :
          Path.resolve w'.workingDirectory settings.directory = dir := by
        rw [hlater.workingDirectory_eq]
        exact ho clock stamp settings (List.mem_cons_of_mem _ hs)
      cases result with
      | ok caches' => exact ih (hreturns _ rfl caches' rfl) h' hrest
      | error failure => exact ih hn h' hrest

/-- Caches of a folder that is reached without links, and whose draft is no link, change nothing
outside of it, whatever its document and its other entries are: what is beside it is what it was, and
what is above it stays, but that missing folders on the way to it may be made. -/
theorem Operation.confined {w : World} {directory : String} {loc : Location} (hr : w.Running)
    (hloc : Path.names (Path.resolve w.workingDirectory directory) = loc)
    (hs : w.root.Straight loc)
    (hd : ∀ target, w.root.at? (loc ++ [draftName w.processId]) ≠ some (.link target))
    (operations : List (Number × Stamp × Operation))
    (ho : ∀ clock stamp settings, (clock, stamp, .open settings) ∈ operations →
      Path.resolve w.workingDirectory settings.directory =
        Path.resolve w.workingDirectory directory) :
    (∀ other, ¬loc <+: other → ¬other <+: loc →
      (runAll [] operations w).2.root.at? other = w.root.at? other) ∧
    ∀ other, other <+: loc → other ≠ loc →
      ((runAll [] operations w).2.root.at? other).map bare = (w.root.at? other).map bare ∨
        w.root.at? other = none ∧
          ∃ entries, (runAll [] operations w).2.root.at? other = some (.folder entries) := by
  rcases Path.resolve_isNormal w.workingDirectory directory with hroot | hn
  · -- Everything is in the root folder.
    have hnil : loc = [] := by
      rw [← hloc, hroot]
      decide
    subst hnil
    exact ⟨fun other hp => absurd List.nil_prefix hp,
      fun other hp hne => absurd (List.prefix_nil.mp hp) hne⟩
  · subst hloc
    have hguarded : Guarded (Path.resolve w.workingDirectory directory) w := ⟨hr, hn, hs, hd⟩
    have hconfined := @runAll_confined _ w [] nofun operations hguarded ho
    rw [Moves] at hconfined
    exact ⟨hconfined.aside, hconfined.above⟩

/-- A folder with links that lead out of it, and with a document of which one record names a file
outside and another one a link. -/
def hostile : World := .start (.folder [("W", .folder
  [("a.py", .file [112] ⟨1700000000, 0⟩),
    ("c", .folder
      [("build_x", .link "/W/a.py"),
        (documentName, .file (Text.Utf8.encode
          ("\x7b\"s\": \x7b\"cacheId\": \"../a.py\", \"storedAt\": \"2026-01-01T00:00:00Z\"\x7d, " ++
            "\"t\": \x7b\"cacheId\": \"build_x\", \"storedAt\": \"2026-01-01T00:00:00Z\"\x7d\x7d"))
          ⟨0, 0⟩),
        ("d", .link "/W")]),
    ("o", .folder [("x", .file [1, 2, 3] ⟨0, 0⟩)])])])

theorem Operation.confined_hostile :
    let settings : CacheSettings := ⟨true, "/W/c", 0, 30⟩
    let operations : List (Number × Stamp × Operation) :=
      [(1767225600000, ⟨0, 0⟩, .open settings), (1767225601000, ⟨0, 0⟩, .perform 0 .evict),
        (1767225602000, ⟨0, 0⟩, .perform 0 (.store "/W/a.py" "" "/W/o" none)),
        (1767225603000, ⟨0, 0⟩, .perform 0 .clear)]
    hostile.Running ∧ Path.names (Path.resolve hostile.workingDirectory "/W/c") = ["W", "c"] ∧
      hostile.root.Straight ["W", "c"] ∧
      (runAll [] [(0, ⟨0, 0⟩, .open settings)] hostile).1.toOption.map
        (fun caches => caches.map (fun cache => cache.store.records.map (·.cacheId))) =
          some [["build_x"]] ∧
      ((∀ other, ¬["W", "c"] <+: other → ¬other <+: ["W", "c"] →
        (runAll [] operations hostile).2.root.at? other = hostile.root.at? other) ∧
      ∀ other, other <+: ["W", "c"] → other ≠ ["W", "c"] →
        ((runAll [] operations hostile).2.root.at? other).map bare =
            (hostile.root.at? other).map bare ∨
          hostile.root.at? other = none ∧ ∃ entries,
            (runAll [] operations hostile).2.root.at? other = some (.folder entries)) := by
  have hr : hostile.Running := World.start_running (by decide) ⟨_, rfl⟩
  have hloc : Path.names (Path.resolve hostile.workingDirectory "/W/c") = ["W", "c"] := by
    decide +kernel
  have hs : hostile.root.Straight ["W", "c"] := .of_folder ⟨_, rfl⟩
  refine ⟨hr, hloc, hs, by decide +kernel, Operation.confined hr hloc hs ?_ _ ?_⟩
  · have hnone : hostile.root.at? (["W", "c"] ++ [draftName hostile.processId]) = none := by
      decide +kernel
    rw [hnone]
    exact nofun
  · intro clock stamp settings hm
    simp only [List.mem_cons, Prod.mk.injEq, Operation.open.injEq, reduceCtorEq, and_false,
      List.not_mem_nil, or_false] at hm
    rw [hm.2.2]

end ScriptPack.Cache

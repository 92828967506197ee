import ScriptPack.Proofs.Cache.Consistent
import ScriptPack.Proofs.Cache.Stopping

/-!
What eviction removes: the entries of the folder that no record names, and then the oldest artifacts
together with their records, until the total is down to the target.
-/

namespace ScriptPack.Cache

open Effect Node Lookup Files

/-- Whether a sweep leaves a name alone. -/
def keeps (cache : Cache) (name : String) : Bool :=
  isDocumentName name || cache.store.records.any (·.cacheId == name)

/-- The entries that have to go, from the front of a list, until the total is down to the target. -/
def victims (target : Number) : List Entry → Number → List Entry
  | [], _ => []
  | entry :: rest, total =>
    if Number.atMost total target then []
    else entry :: victims target rest (total - entry.sizeBytes)

/-- The records that eviction drops. -/
def evicted (cache : Cache) : List Entry :=
  let maxBytes := cache.settings.maxSizeMB * bytesPerMB
  let total := cache.store.records.totalBytes
  if Number.atMost total maxBytes then []
  else victims (maxBytes * evictionTarget) cache.store.records.oldestFirst total

/-- The cache after eviction. -/
def afterEviction (cache : Cache) : Cache :=
  cache.withRecords (cache.store.records.erase (cache.evicted.map (·.signature)))

/-- The entries after eviction: of the artifacts, those that have a record and are not evicted. -/
def Evicted (cache : Cache) (entries entries' : List (String × Node)) : Prop :=
  ∀ name, isDocumentName name = false → entries'.lookup name =
    if cache.keeps name && !(cache.evicted.map (·.cacheId)).contains name then
      entries.lookup name
    else none

variable {cache : Cache} {loc : Location} {w w' : World} {entries : List (String × Node)}
  {names : List String} {shared : Bool}

theorem sweepNames_open (hn : ∀ name ∈ names, IsName name)
    (h : Open cache.directory loc entries w) :
    ∃ count, Does (cache.sweepNames names) w count (put loc
      (.folder (entries.filter fun e => cache.keeps e.1 || !names.contains e.1)) w.root) := by
  induction names generalizing w entries with
  | nil =>
      refine ⟨0, ?_⟩
      have hall : (entries.filter fun e => cache.keeps e.1 || !List.contains [] e.1) = entries :=
        List.filter_eq_self.mpr fun e _ => by simp
      rw [hall]
      exact h.does_same (does_pure 0 w)
  | cons name rest ih =>
      have hname := hn name List.mem_cons_self
      have hrest := fun n (hmem : n ∈ rest) => hn n (List.mem_cons_of_mem _ hmem)
      by_cases hk : cache.keeps name = true
      · obtain ⟨count, hc⟩ := ih hrest h
        have hsame : (entries.filter fun e => cache.keeps e.1 || !(name :: rest).contains e.1) =
            entries.filter fun e => cache.keeps e.1 || !rest.contains e.1 := by
          refine List.filter_congr fun e _ => ?_
          by_cases he : e.1 = name
          · rw [he, hk, Bool.true_or, Bool.true_or]
          · simp [he]
        refine ⟨0 + count, ?_⟩
        rw [sweepNames, hsame]
        rw [keeps] at hk
        simp only [hk, if_true, pure_bind]
        exact h.bind hc (h.wellFormed.filter _) fun w' ho _ => ho.does_same (does_pure _ w')
      · have hremove := h.removePath hname
        rw [eraseEntry_eq_filter h.wellFormed.sorted] at hremove
        obtain ⟨w₁, hx, he⟩ := hremove
        obtain ⟨count, w₂, hx₂, he₂⟩ := ih hrest (h.put (h.wellFormed.filter _) he)
        have hboth : (entries.filter fun e => cache.keeps e.1 || !(name :: rest).contains e.1) =
            (entries.filter (·.1 != name)).filter fun e =>
              cache.keeps e.1 || !rest.contains e.1 := by
          rw [List.filter_filter]
          refine List.filter_congr fun e _ => ?_
          by_cases heq : e.1 = name
          · rw [heq]
            simp [hk]
          · simp [heq]
        refine ⟨1 + count, w₂, ?_, ?_⟩
        · rw [keeps] at hk
          rw [← h.normal.join_child (isStep_of_isName hname)] at hx
          rw [sweepNames]
          simp only [hk, Bool.false_eq_true, if_false]
          rw [bind_ok hx, bind_ok hx₂]
          rfl
        · rw [hboth]
          exact h.trans he he₂

/-- A sweep leaves the document and the artifacts of the records. -/
theorem sweepOrphans_open (h : Open cache.directory loc entries w) :
    ∃ count, Does cache.sweepOrphans w count
      (put loc (.folder (entries.filter fun e => cache.keeps e.1)) w.root) := by
  have hnames : ∀ name ∈ entries.map (·.1), IsName name := by
    intro name hmem
    obtain ⟨e, he, rfl⟩ := List.mem_map.mp hmem
    exact h.wellFormed.isName (h.wellFormed.sorted.lookup_of_mem he)
  obtain ⟨count, hsweep⟩ := sweepNames_open hnames h
  have hall : (entries.filter fun e => cache.keeps e.1 || !(entries.map (·.1)).contains e.1) =
      entries.filter fun e => cache.keeps e.1 := by
    refine List.filter_congr fun e he => ?_
    have hmem : (entries.map (·.1)).contains e.1 = true := by
      rw [List.contains_iff_mem]
      exact List.mem_map_of_mem he
    rw [hmem, Bool.not_true, Bool.or_false]
  rw [hall] at hsweep
  refine ⟨count, ?_⟩
  rw [sweepOrphans, Does, bind_ok (attempt_ok (list_held h.running.wellFormed h.normal h.holds))]
  refine h.bind hsweep (h.wellFormed.filter _) fun w' ho _ => ?_
  split
  · refine ho.bind_same (logFields_does _ _ _ w') fun w'' ho' _ => ?_
    exact ho'.bind_same (traceInfo_does _ _ w'') fun w₃ ho₃ _ => ho₃.does_same (does_pure _ w₃)
  · exact ho.does_same (does_pure _ w')

theorem removeOldest_open (target : Number) {list : List Entry}
    (hid : ∀ e ∈ list, IsName e.cacheId) (h : Open cache.directory loc entries w)
    (total : Number) :
    ∃ left, Does (cache.removeOldest target list total) w
      ((victims target list total).map (·.signature), left)
      (put loc (.folder (entries.filter fun e =>
        !((victims target list total).map (·.cacheId)).contains e.1)) w.root) := by
  have hnothing {total : Number} {w : World} {entries : List (String × Node)}
      (h : Open cache.directory loc entries w) :
      Does (pure ([], total)) w (([] : List Entry).map (·.signature), total)
        (put loc (.folder (entries.filter fun e =>
          !(([] : List Entry).map (·.cacheId)).contains e.1)) w.root) := by
    have hall : (entries.filter fun e => !(([] : List Entry).map (·.cacheId)).contains e.1) =
        entries := List.filter_eq_self.mpr fun e _ => by simp
    rw [hall]
    exact h.does_same (does_pure _ w)
  induction list generalizing w entries total with
  | nil => exact ⟨total, hnothing h⟩
  | cons entry rest ih =>
      by_cases hdone : Number.atMost total target = true
      · refine ⟨total, ?_⟩
        rw [removeOldest, victims, if_pos hdone, if_pos hdone]
        exact hnothing h
      · have hname := hid entry List.mem_cons_self
        have hremove := h.removePath hname
        rw [eraseEntry_eq_filter h.wellFormed.sorted] at hremove
        obtain ⟨w₁, hx, he⟩ := hremove
        obtain ⟨left, w₂, hx₂, he₂⟩ := ih (fun e he => hid e (List.mem_cons_of_mem _ he))
          (h.put (h.wellFormed.filter _) he) (total - entry.sizeBytes)
        rw [← artifactPath_eq h.normal (isStep_of_isName hname)] at hx
        have hboth : (entries.filter fun e => !((victims target (entry :: rest) total).map
            (·.cacheId)).contains e.1) = (entries.filter (·.1 != entry.cacheId)).filter fun e =>
              !((victims target rest (total - entry.sizeBytes)).map (·.cacheId)).contains e.1 := by
          rw [List.filter_filter, victims, if_neg hdone]
          refine List.filter_congr fun e _ => ?_
          by_cases heq : e.1 = entry.cacheId
          · simp [heq]
          · simp [heq]
        refine ⟨left, w₂, ?_, ?_⟩
        · rw [removeOldest, if_neg hdone, bind_ok (show cache.removeArtifact entry w = _ from hx),
            if_pos rfl, bind_ok hx₂, victims, if_neg hdone]
          rfl
        · rw [hboth]
          exact h.trans he he₂

theorem isPrefix_victims (target : Number) (list : List Entry) (total : Number) :
    victims target list total <+: list := by
  induction list generalizing total with
  | nil => exact List.prefix_refl []
  | cons entry rest ih =>
      rw [victims]
      split
      · exact List.nil_prefix
      · exact (List.prefix_cons_inj entry).mpr (ih _)

theorem mem_records_of_mem_evicted {e : Entry} (h : e ∈ cache.evicted) :
    e ∈ cache.store.records := by
  rw [evicted] at h
  split at h
  · cases h
  · exact List.mem_mergeSort.mp ((isPrefix_victims _ _ _).subset h)

/-- Whether eviction leaves a name alone: that of the document, or of an artifact that stays. -/
def spares (cache : Cache) (name : String) : Bool :=
  cache.keeps name && !(cache.evicted.map (·.cacheId)).contains name

/-- The entries that eviction leaves. -/
def remaining (cache : Cache) (entries : List (String × Node)) : List (String × Node) :=
  entries.filter (cache.spares ·.1)

theorem wellFormed_remaining (h : WellFormed (.folder entries)) :
    WellFormed (.folder (cache.remaining entries)) := h.filter _

theorem lookup_remaining (name : String) : (cache.remaining entries).lookup name =
    if cache.spares name then entries.lookup name else none := lookup_filter cache.spares name

/-- Artifacts that are not named like the document do not take it away when they are evicted. -/
theorem spares_document (hdoc : ∀ e ∈ cache.store.records, isDocumentName e.cacheId = false)
    {name : String} (h : isDocumentName name = true) : cache.spares name = true := by
  simp only [spares, keeps, h, Bool.true_or, Bool.true_and, Bool.not_eq_true', List.contains_eq_mem,
    decide_eq_false_iff_not, List.mem_map, not_exists, not_and]
  rintro e he rfl
  cases h.symm.trans (hdoc e (mem_records_of_mem_evicted he))

theorem lookup_remaining_document
    (hdoc : ∀ e ∈ cache.store.records, isDocumentName e.cacheId = false) {name : String}
    (h : isDocumentName name = true) : (cache.remaining entries).lookup name = entries.lookup name := by
  rw [lookup_remaining, if_pos (spares_document hdoc h)]

theorem spares_of_mem (hids : (cache.store.records.map (·.cacheId)).Nodup) {e : Entry}
    (he : e ∈ cache.store.records) (hne : e ∉ cache.evicted) : cache.spares e.cacheId = true := by
  have hlive : cache.store.records.any (·.cacheId == e.cacheId) = true :=
    List.any_eq_true.mpr ⟨e, he, beq_self_eq_true _⟩
  simp only [spares, keeps, hlive, Bool.or_true, Bool.true_and, Bool.not_eq_true',
    List.contains_eq_mem, decide_eq_false_iff_not, List.mem_map, not_exists, not_and]
  intro e' he' hsame
  have heq := List.inj_on_of_nodup_map hids (mem_records_of_mem_evicted he') he hsame
  exact hne (heq ▸ he')

theorem filter_keeps (entries : List (String × Node)) :
    ((entries.filter fun e => cache.keeps e.1).filter
      fun e => !(cache.evicted.map (·.cacheId)).contains e.1) = cache.remaining entries := by
  rw [remaining, List.filter_filter]
  exact List.filter_congr fun e _ => Bool.and_comm _ _

theorem afterEviction_of_none (h : cache.evicted = []) : cache.afterEviction = cache := by
  rw [afterEviction, h, List.map_nil, Records.erase_nil]
  rfl

/-- The end of an eviction of artifacts, after their records are dropped. -/
theorem evict_does {w₁ w₂ w₃ : World} {count : Nat} {signatures : List String} {left : Number}
    {store : Store}
    (hfull : ¬Number.atMost cache.store.records.totalBytes
      (cache.settings.maxSizeMB * bytesPerMB) = true)
    (hx : cache.sweepOrphans w = (.ok count, w₁))
    (hx₂ : cache.removeOldest (cache.settings.maxSizeMB * bytesPerMB * evictionTarget)
      cache.store.records.oldestFirst cache.store.records.totalBytes w₁ =
        (.ok (signatures, left), w₂))
    (hx₃ : cache.store.deleteMany signatures w₂ = (.ok store, w₃)) :
    ∃ w₄, cache.evict w = (.ok (signatures.length, { cache with store }), w₄) ∧
      w₃.Evolves w₃.root w₄ := by
  have hend : Does (do
      logFields .cache "cache eviction"
        [("removed", Json.number (.ofNat signatures.length)), ("totalBytes", .number left)]
      traceInfo "cache.evict"
        [("removed", Json.number (.ofNat signatures.length)), ("totalBytes", .number left)]
      return (signatures.length, { cache with store })) w₃ (signatures.length, { cache with store })
        w₃.root := by
    refine (logFields_does _ _ _ w₃).bind fun w₄ he₄ => ?_
    refine (traceInfo_does _ _ w₄).bind fun w₅ he₅ => ?_
    rw [← he₄.root_eq, ← he₅.root_eq]
    exact does_pure _ w₅
  obtain ⟨w₄, hx₄, he₄⟩ := hend
  refine ⟨w₄, ?_, he₄⟩
  rw [evict, bind_ok hx]
  simp only [hfull, Bool.false_eq_true, if_false]
  rw [bind_ok hx₂]
  simp only
  rw [bind_ok (attempt_ok hx₃)]
  simp only [pure_bind]
  exact hx₄

/-- What is left once records have been dropped, together with the document, if it can be written. -/
theorem drop_evicted (hroot : cache.store.root = cache.directory)
    (h : Open cache.directory loc entries w)
    (hdated : ∀ e ∈ cache.store.records, e.storedAt ≠ .invalid)
    (hw : cache.evicted ≠ [] → Writable w.processId entries) :
    (cache.evicted = [] ∧ Does (cache.store.deleteMany (cache.evicted.map (·.signature))) w
      cache.store w.root) ∨
    cache.evicted ≠ [] ∧ ∃ text,
      Document.serialize cache.afterEviction.store.records = .ok text ∧
      Does (cache.store.deleteMany (cache.evicted.map (·.signature))) w cache.afterEviction.store
        (put loc (.folder (written w.processId (Text.Utf8.encode text) w.stamp entries)) w.root) := by
  by_cases hnone : cache.evicted = []
  · refine .inl ⟨hnone, ?_⟩
    rw [hnone, List.map_nil]
    exact does_of_eq (Store.deleteMany_idle nofun)
  · obtain ⟨text, ht⟩ := Document.serialize_of_dated fun e (he : e ∈
        cache.store.records.erase (cache.evicted.map (·.signature))) =>
      hdated e (Records.mem_erase.mp he).1
    refine .inr ⟨hnone, text, ht, ?_⟩
    obtain ⟨e, he⟩ := List.exists_mem_of_ne_nil _ hnone
    rw [Store.deleteMany_commit fun hidle => hidle e.signature (List.mem_map_of_mem he)
      (List.mem_map_of_mem (mem_records_of_mem_evicted he))]
    exact commit_writable (hroot ▸ h) (hw hnone) ht

/-- Eviction where the document can be written: what no record names goes, and so do the oldest
artifacts with their records. -/
theorem evict_writable (hroot : cache.store.root = cache.directory)
    (h : Open cache.directory loc entries w) (hid : ∀ e ∈ cache.store.records, IsName e.cacheId)
    (hdoc : ∀ e ∈ cache.store.records, isDocumentName e.cacheId = false)
    (hdated : ∀ e ∈ cache.store.records, e.storedAt ≠ .invalid)
    (hw : cache.evicted ≠ [] → Writable w.processId entries) :
    (cache.evicted = [] ∧
      Does cache.evict w (0, cache) (put loc (.folder (cache.remaining entries)) w.root)) ∨
    cache.evicted ≠ [] ∧ ∃ text,
      Document.serialize cache.afterEviction.store.records = .ok text ∧
      Does cache.evict w (cache.evicted.length, cache.afterEviction) (put loc (.folder
        (written w.processId (Text.Utf8.encode text) w.stamp (cache.remaining entries))) w.root) := by
  obtain ⟨count, hsweep⟩ := sweepOrphans_open h
  have hwf := h.wellFormed.filter fun e => cache.keeps e.1
  by_cases hfull : Number.atMost cache.store.records.totalBytes
      (cache.settings.maxSizeMB * bytesPerMB) = true
  · have hnone : cache.evicted = [] := by
      rw [evicted]
      exact if_pos hfull
    have hremaining : cache.remaining entries = entries.filter fun e => cache.keeps e.1 := by
      simp [remaining, spares, hnone]
    refine .inl ⟨hnone, ?_⟩
    rw [evict, hremaining]
    refine h.bind hsweep hwf fun w' ho _ => ?_
    simp only [hfull, if_true]
    exact ho.does_same (does_pure _ w')
  · have hgone : cache.evicted = victims (cache.settings.maxSizeMB * bytesPerMB * evictionTarget)
        cache.store.records.oldestFirst cache.store.records.totalBytes := by
      rw [evicted]
      exact if_neg hfull
    obtain ⟨w₁, hx, he⟩ := hsweep
    have ho₁ := h.put hwf he
    have hsorted : ∀ e ∈ cache.store.records.oldestFirst, IsName e.cacheId := fun e hmem =>
      hid e (List.mem_mergeSort.mp hmem)
    obtain ⟨left, w₂, hx₂, he₂⟩ := removeOldest_open
      (cache.settings.maxSizeMB * bytesPerMB * evictionTarget) hsorted ho₁
      cache.store.records.totalBytes
    rw [← hgone] at hx₂ he₂
    rw [filter_keeps] at he₂
    have hevolves := h.trans he he₂
    have ho₂ := h.put (wellFormed_remaining h.wellFormed) hevolves
    have hwritable (hne : cache.evicted ≠ []) : Writable w₂.processId (cache.remaining entries) := by
      rw [hevolves.processId_eq]
      exact (hw hne).congr fun name hn => lookup_remaining_document hdoc hn
    have hend {store : Store} {root : Node}
        (hx₃ : Does (cache.store.deleteMany (cache.evicted.map (·.signature))) w₂ store root) :
        Does cache.evict w (cache.evicted.length, { cache with store }) root := by
      obtain ⟨w₃, hx₃, he₃⟩ := hx₃
      obtain ⟨w₄, hx₄, he₄⟩ := evict_does hfull hx hx₂ hx₃
      rw [List.length_map] at hx₄
      exact ⟨w₄, hx₄, hevolves.trans (he₃.trans (by rwa [he₃.root_eq] at he₄))⟩
    rcases drop_evicted hroot ho₂ hdated hwritable with ⟨hnone, hx₃⟩ | ⟨hne, text, ht, hx₃⟩
    · refine .inl ⟨hnone, ?_⟩
      have hdoes := hend hx₃
      rw [hnone, hevolves.root_eq] at hdoes
      exact hdoes
    · refine .inr ⟨hne, text, ht, ?_⟩
      have hdoes := hend hx₃
      rw [hevolves.processId_eq, hevolves.stamp_eq, hevolves.root_eq,
        put_put h.running.wellFormed] at hdoes
      exact hdoes

/-- Eviction drops records with their artifacts and leaves the other artifacts alone. -/
theorem evict_open (hroot : cache.store.root = cache.directory)
    (h : Open cache.directory loc entries w)
    (hc : Consistent shared entries cache.store.records) :
    ∃ entries', Does cache.evict w (cache.evicted.length, cache.afterEviction)
        (put loc (.folder entries') w.root) ∧
      WellFormed (.folder entries') ∧
      Consistent shared entries' cache.afterEviction.store.records ∧
      Evicted cache entries entries' := by
  have hdoc : ∀ e ∈ cache.store.records, isDocumentName e.cacheId = false := fun e he =>
    (hc.filed e he).isId.not_document
  have hwf : WellFormed (.folder (cache.remaining entries)) := wellFormed_remaining h.wellFormed
  have hc₁ : Consistent shared (cache.remaining entries) cache.store.records :=
    hc.filter cache.spares (spares_document hdoc (by decide))
  rcases evict_writable hroot h (fun e he => (hc.filed e he).isId.isName) hdoc
    (fun e he => (hc.filed e he).dated) (fun _ => hc.tidy.writable _) with
    ⟨hnone, hx⟩ | ⟨-, text, ht, hx⟩
  · rw [afterEviction_of_none hnone, hnone]
    exact ⟨_, hx, hwf, hc₁, fun name _ => lookup_remaining name⟩
  · rw [hc₁.tidy.written hwf.sorted] at hx
    have hfiled : ∀ e ∈ cache.afterEviction.store.records, Filed e := fun e he =>
      hc.filed e (Records.mem_erase.mp he).1
    refine ⟨_, hx, hwf.setEntry isName_documentName (.file _ _),
      hc₁.commit hwf.sorted ht hfiled (Records.nodup_erase hc.distinct _) w.stamp, fun name hn => ?_⟩
    rw [lookup_setEntry hwf.sorted, if_neg (ne_documentName hn), lookup_remaining, spares]

/-! ### Without a folder -/

/-- Where there is no folder, artifacts that are not there count as removed. -/
theorem removeOldest_closed (h : Closed cache.directory w) {target : Number} {list : List Entry}
    (hid : ∀ e ∈ list, IsName e.cacheId) {total : Number}
    (hr : ∀ e ∈ victims target list total, (removePath (cache.artifact e) w).1 = .ok true)
    (he : w.Evolves w.root w') :
    ∃ left, Does (cache.removeOldest target list total) w'
      ((victims target list total).map (·.signature), left) w'.root := by
  induction list generalizing total w' with
  | nil => exact ⟨total, does_pure _ w'⟩
  | cons e rest ih =>
      rw [victims] at hr ⊢
      by_cases hdone : Number.atMost total target = true
      · refine ⟨total, ?_⟩
        rw [if_pos hdone, removeOldest, if_pos hdone]
        exact does_pure _ w'
      · rw [if_neg hdone] at hr ⊢
        have hpath : cache.artifact e = cache.directory ++ "/" ++ e.cacheId :=
          artifactPath_eq h.normal (isStep_of_isName (hid e List.mem_cons_self))
        obtain ⟨gone, w₁, hx₁, he₁⟩ := (h.same he).removePath
          (isStep_of_isName (hid e List.mem_cons_self))
        rw [← hpath] at hx₁
        have hsame := ((removePath_answers (cache.artifact e)).again h.running.steps he).1
        rw [hr e List.mem_cons_self, show removePath (cache.artifact e) w' = _ from hx₁] at hsame
        cases hsame
        have hevolves : w.Evolves w.root w₁ := he.trans (by rwa [he.root_eq] at he₁)
        obtain ⟨left, w₂, hx₂, he₂⟩ := ih (fun e' he' => hid e' (List.mem_cons_of_mem _ he'))
          (fun e' he' => hr e' (List.mem_cons_of_mem _ he')) hevolves
        refine ⟨left, w₂, ?_, he₁.trans (he₁.root_eq ▸ he₂)⟩
        rw [removeOldest, if_neg hdone, bind_ok (show cache.removeArtifact e w' = _ from hx₁),
          if_pos rfl, bind_ok hx₂]
        rfl

/-- A document that can be written where there is no folder is written into a new folder. -/
theorem commit_closed {store : Store} {next : Records} {text : String} (h : Closed store.root w)
    (ht : Document.serialize next = .ok text)
    (hw : ∃ store' w₁, store.commit next w = (.ok store', w₁)) (he : w.Evolves w.root w') :
    ∃ loc w₂, store.commit next w' = (.ok { store with records := next }, w₂) ∧
      Open store.root loc (written w.processId (Text.Utf8.encode text) w.stamp []) w₂ := by
  obtain ⟨store', w₁, hw⟩ := hw
  rcases (h.same he).makeFolders with ⟨failure, hf⟩ | ⟨root, loc, ⟨w₂, hx, he₂⟩, -, -, hopen⟩
  · have hfails : store.commit next w' = (.error (.failed failure), w') := by
      rw [Store.commit_eq, bind_error hf]
    have hsame := ((Store.commit_orderly store next).again h.running.steps he).1
    rw [hfails, hw] at hsame
    cases hsame
  · have ho := hopen w₂ he₂
    have hwritable : Writable w₂.processId [] := ⟨nofun, nofun⟩
    obtain ⟨w₃, hx₃, he₃⟩ := commit_writable ho hwritable ht
    have ho₃ := ho.put (wellFormed_written wellFormed_empty) he₃
    rw [he₂.processId_eq, he₂.stamp_eq, he.processId_eq, he.stamp_eq] at ho₃
    exact ⟨loc, w₃, (commit_made hx ho next).trans hx₃, ho₃⟩

/-- Eviction where there is no folder: only records are dropped, and a new document is written. -/
theorem evict_closed (h : Closed cache.directory w) (hroot : cache.store.root = cache.directory)
    (hid : ∀ e ∈ cache.store.records, IsName e.cacheId)
    (hdated : ∀ e ∈ cache.store.records, e.storedAt ≠ .invalid)
    (hr : ∀ e ∈ cache.evicted, (removePath (cache.artifact e) w).1 = .ok true)
    (hw : cache.evicted ≠ [] →
      ∃ store w', cache.store.commit cache.afterEviction.store.records w = (.ok store, w')) :
    (cache.evicted = [] ∧ Does cache.evict w (0, cache) w.root) ∨
    cache.evicted ≠ [] ∧ ∃ text loc w',
      Document.serialize cache.afterEviction.store.records = .ok text ∧
      cache.evict w = (.ok (cache.evicted.length, cache.afterEviction), w') ∧
      Open cache.directory loc (written w.processId (Text.Utf8.encode text) w.stamp []) w' := by
  obtain ⟨failure, hlist⟩ := h.list
  obtain ⟨w₁, hx₁, he₁⟩ : Does cache.sweepOrphans w 0 w.root := by
    rw [sweepOrphans, Does, bind_ok (attempt_failed hlist)]
    refine (logFields_does _ _ _ w).bind fun w' he => ?_
    rw [← he.root_eq]
    exact does_pure 0 w'
  by_cases hfull : Number.atMost cache.store.records.totalBytes
      (cache.settings.maxSizeMB * bytesPerMB) = true
  · refine .inl ⟨?_, w₁, ?_, he₁⟩
    · rw [evicted]
      exact if_pos hfull
    · rw [evict, bind_ok hx₁]
      simp only [hfull, if_true]
      rfl
  · have hgone : cache.evicted = victims (cache.settings.maxSizeMB * bytesPerMB * evictionTarget)
        cache.store.records.oldestFirst cache.store.records.totalBytes := by
      rw [evicted]
      exact if_neg hfull
    have hsorted : ∀ e ∈ cache.store.records.oldestFirst, IsName e.cacheId := fun e hmem =>
      hid e (List.mem_mergeSort.mp hmem)
    obtain ⟨left, w₂, hx₂, he₂⟩ := removeOldest_closed h hsorted (hgone ▸ hr) he₁
    rw [← hgone] at hx₂
    have hevolves : w.Evolves w.root w₂ := he₁.trans (he₁.root_eq ▸ he₂)
    by_cases hnone : cache.evicted = []
    · have hidle : cache.store.deleteMany (cache.evicted.map (·.signature)) w₂ =
          (.ok cache.store, w₂) := by
        rw [hnone]
        exact Store.deleteMany_idle (by simp)
      obtain ⟨w₃, hx₃, he₃⟩ := evict_does hfull hx₁ hx₂ hidle
      rw [hnone] at hx₃
      exact .inl ⟨hnone, w₃, hx₃, hevolves.trans (hevolves.root_eq ▸ he₃)⟩
    · obtain ⟨text, ht⟩ := Document.serialize_of_dated fun e (he : e ∈
          cache.afterEviction.store.records) => hdated e (Records.mem_erase.mp he).1
      obtain ⟨loc, w₃, hx₃, ho₃⟩ := commit_closed (hroot ▸ h) ht (hw hnone) hevolves
      obtain ⟨e, he⟩ := List.exists_mem_of_ne_nil _ hnone
      have hdrop : cache.store.deleteMany (cache.evicted.map (·.signature)) w₂ =
          (.ok cache.afterEviction.store, w₃) := by
        rw [Store.deleteMany_commit fun hidle => hidle e.signature (List.mem_map_of_mem he)
          (List.mem_map_of_mem (mem_records_of_mem_evicted he))]
        exact hx₃
      obtain ⟨w₄, hx₄, he₄⟩ := evict_does hfull hx₁ hx₂ hdrop
      rw [List.length_map] at hx₄
      exact .inr ⟨hnone, text, loc, w₄, ht, hx₄, hroot ▸ ho₃.same he₄⟩

theorem evicted_of_empty (h : cache.store.records = []) : cache.evicted = [] := by
  rw [List.eq_nil_iff_forall_not_mem]
  intro e he
  have hmem := mem_records_of_mem_evicted he
  rw [h] at hmem
  cases hmem

/-- As long as the folder is missing, there is nothing to evict. -/
theorem evict_missing (h : Missing cache.directory w) (hroot : cache.store.root = cache.directory)
    (hr : cache.store.records = []) : Does cache.evict w (0, cache) w.root := by
  have hnone := evicted_of_empty hr
  have hany {P : Entry → Prop} : ∀ e ∈ cache.store.records, P e := by
    rw [hr]
    exact nofun
  rcases evict_closed h.closed hroot hany hany (by rw [hnone]; exact nofun)
      (absurd hnone) with ⟨-, hx⟩ | ⟨hne, -⟩
  · exact hx
  · exact absurd hnone hne

theorem evict_cases (h : Stands shared cache entries w) :
    ∃ entries' w', cache.evict w = (.ok (cache.evicted.length, cache.afterEviction), w') ∧
      Stands shared cache.afterEviction entries' w' ∧ Evicted cache entries entries' := by
  rcases h.shelf with ⟨hm, rfl⟩ | ⟨loc, ho⟩
  · have hnone := evicted_of_empty h.records_eq_nil
    obtain ⟨w', hx, he⟩ := evict_missing hm h.root_eq h.records_eq_nil
    rw [afterEviction_of_none hnone, hnone]
    refine ⟨[], w', hx, h.same he, fun name _ => ?_⟩
    split <;> rfl
  · obtain ⟨entries', ⟨w', hx, he⟩, hwf, hc, hl⟩ := evict_open h.root_eq ho h.consistent
    exact ⟨entries', w', hx, ⟨h.root_eq, .inr ⟨loc, ho.put hwf he⟩, hc⟩, hl⟩

end ScriptPack.Cache

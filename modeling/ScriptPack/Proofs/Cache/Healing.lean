import ScriptPack.Proofs.Cache.Finding
import ScriptPack.Proofs.Cache.Rewriting

/-!
Lookups, whatever is in the folder. A lookup answers with the artifact of a record, if that is there;
if it is gone the record is dropped, or all is left as it was where the document is barred. Lookups do
not get in each other's way: whatever was looked up before, a lookup answers the same, and which
records are dropped does not depend on the order.
-/

namespace ScriptPack

open Effect Node Lookup Files

theorem Records.erase_erase (records : Records) (first second : List String) :
    (records.erase first).erase second = records.erase (first ++ second) := by
  rw [erase, erase, erase, List.filter_filter]
  refine List.filter_congr fun e _ => ?_
  simp [Bool.and_comm]

theorem Records.erase_congr {records : Records} {first second : List String}
    (h : ∀ signature, signature ∈ first ↔ signature ∈ second) :
    records.erase first = records.erase second := by
  rw [erase, erase]
  refine List.filter_congr fun e _ => ?_
  simp [h]

namespace Cache

/-- Records that can be written to a document, each under a signature of its own and with an id that
names an entry of a folder. -/
structure Listable (records : Records) : Prop where
  distinct : (records.map (·.signature)).Nodup
  dated : ∀ e ∈ records, e.storedAt ≠ .invalid
  ids : ∀ e ∈ records, IsName e.cacheId

/-- What is known of every cache: its folder is written out, and its records can be written. -/
structure Proper (cache : Cache) : Prop where
  root : cache.store.root = cache.directory
  resolved : Path.IsResolved cache.directory
  records : Listable cache.store.records

/-- No artifact has a name that belongs to the document or to a draft of it. -/
def Distinguished (cache : Cache) : Prop :=
  ∀ e ∈ cache.store.records, isDocumentName e.cacheId = false

/-- How a lookup leaves the cache and the files. -/
inductive Heals (cache : Cache) (signature : String) (w : World) : Cache → World → Prop
  | idle {w' : World} (hs : ¬cache.Stale signature w) (he : w.Evolves w.root w') :
      Heals cache signature w cache w'
  | dropped {w' : World} {text : String} (hs : cache.Stale signature w)
      (hb : ¬Barred cache.directory w)
      (ht : Document.serialize (cache.store.records.erase [signature]) = .ok text)
      (hr : Rewrites cache.directory w w')
      (hd : Store.document? cache.directory w' = some (Text.Utf8.encode text))
      (hn : (contents cache.directory w').lookup (draftName w.processId) = none) :
      Heals cache signature w (cache.withRecords (cache.store.records.erase [signature])) w'
  | barred {w' : World} {text : String} (hs : cache.Stale signature w)
      (hb : Barred cache.directory w)
      (ht : Document.serialize (cache.store.records.erase [signature]) = .ok text)
      (hr : Rewrites cache.directory w w')
      (hd : (contents cache.directory w').lookup documentName =
        (contents cache.directory w).lookup documentName)
      (hn : Drafted cache.directory text w w') :
      Heals cache signature w cache w'

variable {cache cache' : Cache} {signature : String} {w w' w'' : World} {entry : Entry} {there : Bool}
  {signatures : List String}

theorem Listable.empty : Listable [] := ⟨List.nodup_nil, nofun, nofun⟩

theorem Listable.erase {records : Records} (h : Listable records) (signatures : List String) :
    Listable (records.erase signatures) :=
  ⟨Records.nodup_erase h.distinct signatures,
    fun e he => h.dated e (Records.mem_erase.mp he).1,
    fun e he => h.ids e (Records.mem_erase.mp he).1⟩

theorem Proper.erase (h : Proper cache) (signatures : List String) :
    Proper (cache.withRecords (cache.store.records.erase signatures)) :=
  ⟨h.root, h.resolved, h.records.erase signatures⟩

theorem Distinguished.erase (h : Distinguished cache) (signatures : List String) :
    Distinguished (cache.withRecords (cache.store.records.erase signatures)) :=
  fun e he => h e (Records.mem_erase.mp he).1

theorem Proper.serialize (h : Proper cache) (signatures : List String) :
    ∃ text, Document.serialize (cache.store.records.erase signatures) = .ok text :=
  Document.serialize_of_dated (h.erase signatures).records.dated

/-! ### What a lookup depends on -/

theorem Proper.has_iff (h : Proper cache) (hc : Clean cache.directory w) :
    Has there cache signature w entry ↔
      cache.settings.enabled = true ∧ cache.store.records.get? signature = some entry ∧
        cache.isExpired w.clock entry = false ∧
        ((contents cache.directory w).lookup entry.cacheId).isSome = there := by
  constructor
  · rintro ⟨henabled, hg, hexpired, hx⟩
    refine ⟨henabled, hg, hexpired, ?_⟩
    rw [artifact, hc.exists?_artifact (h.records.ids entry (Records.mem_of_get? hg).1)] at hx
    simpa using congrArg Prod.fst hx
  · rintro ⟨henabled, hg, hexpired, rfl⟩
    exact ⟨henabled, hg, hexpired, hc.exists?_artifact (h.records.ids entry (Records.mem_of_get? hg).1)⟩

/-- A lookup depends on its own record and on the artifact of that, which other lookups leave. -/
theorem Proper.has_after (h : Proper cache) (hd : Distinguished cache) (hc : Clean cache.directory w)
    (hr : Rewrites cache.directory w w') (hs : signature ∉ signatures) :
    Has there (cache.withRecords (cache.store.records.erase signatures)) signature w' entry ↔
      Has there cache signature w entry := by
  have hget : (cache.store.records.erase signatures).get? signature =
      cache.store.records.get? signature := by
    have hview := congrArg (fun map => map.value signature)
      (Records.view_erase cache.store.records signatures)
    exact hview.trans (if_neg hs)
  rw [(h.erase signatures).has_iff hr.clean, h.has_iff hc, hr.evolves.clock_eq]
  refine and_congr_right fun _ => ?_
  change (cache.store.records.erase signatures).get? signature = some entry ∧ _ ↔ _
  rw [hget]
  refine and_congr_right fun hg => and_congr_right fun _ => ?_
  have hname := hd entry (Records.mem_of_get? hg).1
  have hothers := hr.others entry.cacheId (ne_documentName hname) (ne_draftName hname w.processId)
  rw [← hothers]
  exact Iff.rfl

theorem Proper.stale_after (h : Proper cache) (hd : Distinguished cache)
    (hc : Clean cache.directory w) (hr : Rewrites cache.directory w w') (hs : signature ∉ signatures) :
    (cache.withRecords (cache.store.records.erase signatures)).Stale signature w' ↔
      cache.Stale signature w :=
  exists_congr fun _ => h.has_after hd hc hr hs

theorem Proper.finds_after (h : Proper cache) (hd : Distinguished cache)
    (hc : Clean cache.directory w) (hr : Rewrites cache.directory w w') (hs : signature ∉ signatures)
    (path : String) :
    (cache.withRecords (cache.store.records.erase signatures)).Finds signature w' path ↔
      cache.Finds signature w path :=
  exists_congr fun _ => and_congr_left fun _ => h.has_after hd hc hr hs

theorem withRecords_self (cache : Cache) : cache.withRecords (cache.store.records.erase []) = cache := by
  rw [Records.erase_nil]
  rfl

theorem Proper.stale_rewrites (h : Proper cache) (hd : Distinguished cache)
    (hc : Clean cache.directory w) (hr : Rewrites cache.directory w w') :
    cache.Stale signature w' ↔ cache.Stale signature w := by
  have hafter := h.stale_after hd hc hr (List.not_mem_nil (a := signature))
  rwa [withRecords_self] at hafter

theorem Proper.finds_rewrites (h : Proper cache) (hd : Distinguished cache)
    (hc : Clean cache.directory w) (hr : Rewrites cache.directory w w') (path : String) :
    cache.Finds signature w' path ↔ cache.Finds signature w path := by
  have hafter := h.finds_after hd hc hr (List.not_mem_nil (a := signature)) path
  rwa [withRecords_self] at hafter

theorem not_has_of_mem (hs : signature ∈ signatures) :
    ¬Has there (cache.withRecords (cache.store.records.erase signatures)) signature w entry := by
  rintro ⟨-, hg, -⟩
  obtain ⟨hmem, rfl⟩ := Records.mem_of_get? hg
  exact (Records.mem_erase.mp hmem).2 hs

/-! ### One lookup -/

/-- Dropping a record writes the document of the others, or fails to where the document is barred. -/
theorem dropRecord_heals (h : Proper cache) (hc : Clean cache.directory w)
    (hs : signature ∈ cache.store.records.map (·.signature)) {text : String}
    (ht : Document.serialize (cache.store.records.erase [signature]) = .ok text) :
    (¬Barred cache.directory w ∧ ∃ w', cache.dropRecord signature w =
      (.ok (cache.withRecords (cache.store.records.erase [signature])), w') ∧
      Rewrites cache.directory w w' ∧
      Store.document? cache.directory w' = some (Text.Utf8.encode text) ∧
      (contents cache.directory w').lookup (draftName w.processId) = none) ∨
    Barred cache.directory w ∧ ∃ w', cache.dropRecord signature w = (.ok cache, w') ∧
      Rewrites cache.directory w w' ∧
      (contents cache.directory w').lookup documentName =
        (contents cache.directory w).lookup documentName ∧
      Drafted cache.directory text w w' ∧
      ∀ w₁, w'.Evolves w'.root w₁ → Does (cache.dropRecord signature) w₁ cache w₁.root := by
  have hcommit : cache.store.delete signature =
      cache.store.commit (cache.store.records.erase [signature]) := by
    refine Store.deleteMany_commit fun hall => hall signature List.mem_cons_self hs
  have hroot := h.root
  rw [← hroot] at hc ⊢
  by_cases hb : Barred cache.store.root w
  · obtain ⟨failure, w₁, hx, hr, hdoc, hdraft, hagain⟩ := hc.commit_barred hb ht
    -- The failure is reported, which leaves the files.
    have hreport {w w₁ : World} {failure : Failure}
        (hx : cache.store.commit (cache.store.records.erase [signature]) w =
          (.error (.failed failure), w₁)) :
        ∃ w₂, cache.dropRecord signature w = (.ok cache, w₂) ∧ w₁.Evolves w₁.root w₂ := by
      obtain ⟨w₂, hx₂, he₂⟩ := warnFailed_does .cacheWriteFailed "dropping stale entry" failure w₁
      refine ⟨w₂, ?_, he₂⟩
      rw [dropRecord, hcommit, bind_ok (attempt_failed hx)]
      exact bind_ok hx₂
    obtain ⟨w₂, hx₂, he₂⟩ := hreport hx
    refine .inr ⟨hb, w₂, hx₂, hr.trans (.same hr.clean he₂), ?_, ?_, fun w₃ he₃ => ?_⟩
    · rw [contents, he₂.root_eq]
      exact hdoc
    · rw [Drafted, contents, he₂.root_eq]
      exact hdraft
    · rw [he₂.root_eq] at he₃
      obtain ⟨failure', w₄, hx₄, he₄⟩ := hagain w₃ (he₂.trans he₃)
      obtain ⟨w₅, hx₅, he₅⟩ := hreport hx₄
      rw [he₄.root_eq] at he₅
      exact ⟨w₅, hx₅, he₄.trans he₅⟩
  · obtain ⟨w', hx, hr, hdoc⟩ := hc.commit_free hb ht
    refine .inl ⟨hb, w', ?_, hr, hdoc⟩
    rw [dropRecord, hcommit, bind_ok (attempt_ok hx)]
    rfl

theorem lookupSignature_idle {answer : Option String} (hs : ¬cache.Stale signature w)
    (hf : ∀ path, answer = some path ↔ cache.Finds signature w path) :
    Does (cache.lookupSignature signature) w (answer, cache) w.root := by
  rcases lookupSignature_run cache signature w with
    ⟨-, answer', hd, hf'⟩ | ⟨entry, -, hhas, -⟩
  · have heq : answer = answer' := Option.ext fun path => (hf path).trans (hf' path).symm
    rwa [heq]
  · exact absurd ⟨entry, hhas⟩ hs

/-- A lookup returns what it finds, and heals the cache; the same lookup changes nothing more. -/
theorem lookupSignature_heals (h : Proper cache) (hd : Distinguished cache)
    (hc : Clean cache.directory w) (signature : String) :
    ∃ answer cache' w', cache.lookupSignature signature w = (.ok (answer, cache'), w') ∧
      (∀ path, answer = some path ↔ cache.Finds signature w path) ∧
      cache.Heals signature w cache' w' ∧
      Does (cache'.lookupSignature signature) w' (answer, cache') w'.root := by
  rcases lookupSignature_run cache signature w with
    ⟨hs, answer, ⟨w', hx, he⟩, hfinds⟩ | ⟨entry, w₁, hhas, he₁, hrun⟩
  · refine ⟨answer, cache, w', hx, hfinds, .idle hs he, ?_⟩
    have hr := Rewrites.same hc he
    refine lookupSignature_idle (mt (h.stale_rewrites hd hc hr).mp hs) fun path => ?_
    exact (hfinds path).trans (h.finds_rewrites hd hc hr path).symm
  · have hmem : signature ∈ cache.store.records.map (·.signature) := by
      obtain ⟨hmem, heq⟩ := Records.mem_of_get? hhas.2.1
      exact heq ▸ List.mem_map_of_mem hmem
    have hstale : cache.Stale signature w := ⟨entry, hhas⟩
    have hnone (path : String) : none = some path ↔ cache.Finds signature w path :=
      ⟨nofun, fun ⟨entry', hf, _⟩ => absurd (hhas.unique hf).2 nofun⟩
    have hr₁ := Rewrites.same hc he₁
    obtain ⟨text, ht⟩ := h.serialize [signature]
    rcases dropRecord_heals h hr₁.clean hmem ht with
      ⟨hb, w₂, hx, hr, hdoc, hdraft⟩ | ⟨hb, w₂, hx, hr, hdoc, hdraft, hagain⟩
    · rw [hr₁.barred] at hb
      rw [he₁.processId_eq] at hdraft
      refine ⟨none, _, w₂, ?_, hnone, .dropped hstale hb ht (hr₁.trans hr) hdoc hdraft, ?_⟩
      · rw [hrun, bind_ok hx]
        rfl
      · exact lookupSignature_idle (fun ⟨_, hhas'⟩ => not_has_of_mem List.mem_cons_self hhas')
          fun path => ⟨nofun, fun ⟨_, hhas', _⟩ => absurd hhas' (not_has_of_mem List.mem_cons_self)⟩
    · rw [hr₁.barred] at hb
      have hr₂ := hr₁.trans hr
      have hdoc₂ : (contents cache.directory w₂).lookup documentName =
          (contents cache.directory w).lookup documentName := by
        rw [hdoc, contents, he₁.root_eq, ← contents]
      have hdraft₂ : Drafted cache.directory text w w₂ := by
        rw [Drafted, he₁.processId_eq, contents, contents, he₁.root_eq] at hdraft
        exact hdraft
      refine ⟨none, cache, w₂, ?_, hnone, .barred hstale hb ht hr₂ hdoc₂ hdraft₂, ?_⟩
      · rw [hrun, bind_ok hx]
        rfl
      · rcases lookupSignature_run cache signature w₂ with ⟨hs, -⟩ | ⟨_, w₃, -, he₃, hrun₃⟩
        · exact absurd ((h.stale_rewrites hd hc hr₂).mpr hstale) hs
        · obtain ⟨w₄, hx₄, he₄⟩ := hagain w₃ he₃
          rw [he₃.root_eq] at he₄
          refine ⟨w₄, ?_, he₃.trans he₄⟩
          rw [hrun₃, bind_ok hx₄]
          rfl

/-! ### One lookup after another -/

/-- What lookups have done so far: some records were dropped, those of which the artifact was gone. -/
structure Settles (cache : Cache) (w : World) (gone : List String) (cache' : Cache) (w' : World) :
    Prop where
  cache_eq : cache' = cache.withRecords (cache.store.records.erase gone)
  rewrites : Rewrites cache.directory w w'
  stale : ∀ signature ∈ gone, cache.Stale signature w
  document : Store.document? cache.directory w' = if gone = [] then Store.document? cache.directory w
    else (Document.serialize (cache.store.records.erase gone)).toOption.map Text.Utf8.encode

theorem Settles.refl (hc : Clean cache.directory w) : Settles cache w [] cache w :=
  ⟨cache.withRecords_self.symm, .same hc (.refl w), nofun, rfl⟩

/-- After other lookups, a lookup answers as it would have done before them. -/
theorem Settles.lookup {gone : List String} (h : Proper cache) (hd : Distinguished cache)
    (hc : Clean cache.directory w) (hs : Settles cache w gone cache' w') (signature : String) :
    ∃ answer cache'' w'' gone', cache'.lookupSignature signature w' = (.ok (answer, cache''), w'') ∧
      (∀ path, answer = some path ↔ cache.Finds signature w path) ∧
      Settles cache w gone' cache'' w'' ∧
      ∀ key, key ∈ gone' ↔ key ∈ gone ∨
        key = signature ∧ cache.Stale signature w ∧ ¬Barred cache.directory w := by
  obtain ⟨rfl, hr, hstale, hdoc⟩ := hs
  have hp' := h.erase gone
  have hd' := hd.erase gone
  obtain ⟨answer, cache'', w'', hx, hfinds, hheals, -⟩ :=
    lookupSignature_heals hp' hd' hr.clean signature
  have hsame (path : String) : answer = some path ↔ cache.Finds signature w path := by
    rw [hfinds path]
    by_cases hmem : signature ∈ gone
    · obtain ⟨entry, hhas⟩ := hstale signature hmem
      constructor
      · rintro ⟨_, hhas', -⟩
        exact absurd hhas' (not_has_of_mem hmem)
      · rintro ⟨_, hhas', -⟩
        cases (hhas.unique hhas').2
    · exact h.finds_after hd hc hr hmem path
  refine ⟨answer, cache'', w'', ?_⟩
  cases hheals with
  | idle hs he =>
      have hr' := hr.trans (.same hr.clean he)
      refine ⟨gone, hx, hsame, ⟨rfl, hr', hstale, ?_⟩, fun key => ⟨.inl, ?_⟩⟩
      · rw [← hdoc, Store.document?_eq, Store.document?_eq, he.absolute_eq, he.root_eq]
      · rintro (hkey | ⟨rfl, hstale', -⟩)
        · exact hkey
        · by_contra hmem
          exact hs ((h.stale_after hd hc hr hmem).mpr hstale')
  | dropped hs hb ht hr' hdoc' _ =>
      have hmem : signature ∉ gone := fun hmem => not_has_of_mem hmem hs.choose_spec
      have hstale' := (h.stale_after hd hc hr hmem).mp hs
      have hb' : ¬Barred cache.directory w := mt hr.barred.mpr hb
      refine ⟨gone ++ [signature], hx, hsame, ⟨?_, hr.trans hr', fun key hkey => ?_, ?_⟩, fun key => ?_⟩
      · change cache.withRecords ((cache.store.records.erase gone).erase [signature]) = _
        rw [Records.erase_erase]
      · rcases List.mem_append.mp hkey with hkey | hkey
        · exact hstale key hkey
        · exact List.mem_singleton.mp hkey ▸ hstale'
      · have ht' := ht
        change Document.serialize ((cache.store.records.erase gone).erase [signature]) = _ at ht'
        rw [Records.erase_erase] at ht'
        rw [if_neg (by simp), ht']
        exact hdoc'
      · rw [List.mem_append, List.mem_singleton]
        exact or_congr_right ⟨fun heq => ⟨heq, hstale', hb'⟩, fun heq => heq.1⟩
  | barred hs hb _ hr' hdoc' _ =>
      have hb' : Barred cache.directory w := hr.barred.mp hb
      refine ⟨gone, hx, hsame, ⟨rfl, hr.trans hr', hstale, ?_⟩, fun key => ⟨.inl, ?_⟩⟩
      · have hclean : Clean cache.directory w'' := hr'.clean
        have hdocument : (contents cache.directory w'').lookup documentName =
            (contents cache.directory w').lookup documentName := hdoc'
        rw [← hdoc, hclean.document?_eq, hr.clean.document?_eq, hdocument]
      · rintro (hkey | ⟨-, -, hb''⟩)
        · exact hkey
        · exact absurd hb' hb''

/-- Two lookups in one order and in the other give the same answers, records and document. -/
theorem lookupSignature_commutes (h : Proper cache) (hd : Distinguished cache)
    (hc : Clean cache.directory w) (first second : String) :
    ∃ answer answer' cache₁ cache₂ final w₁ w₂ w₁' w₂',
      cache.lookupSignature first w = (.ok (answer, cache₁), w₁) ∧
      cache₁.lookupSignature second w₁ = (.ok (answer', final), w₁') ∧
      cache.lookupSignature second w = (.ok (answer', cache₂), w₂) ∧
      cache₂.lookupSignature first w₂ = (.ok (answer, final), w₂') ∧
      Store.document? cache.directory w₁' = Store.document? cache.directory w₂' := by
  have hstart := Settles.refl hc
  obtain ⟨a₁, cache₁, w₁, gone₁, hx₁, hf₁, hs₁, hg₁⟩ := hstart.lookup h hd hc first
  obtain ⟨a₂, final, w₁', gone₁', hx₁', hf₂, hs₁', hg₁'⟩ := hs₁.lookup h hd hc second
  obtain ⟨b₂, cache₂, w₂, gone₂, hx₂, hf₂', hs₂, hg₂⟩ := hstart.lookup h hd hc second
  obtain ⟨b₁, final', w₂', gone₂', hx₂', hf₁', hs₂', hg₂'⟩ := hs₂.lookup h hd hc first
  have hanswer {a b : Option String} {P : String → Prop} (ha : ∀ path, a = some path ↔ P path)
      (hb : ∀ path, b = some path ↔ P path) : a = b :=
    Option.ext fun path => (ha path).trans (hb path).symm
  obtain rfl := hanswer hf₁ hf₁'
  obtain rfl := hanswer hf₂ hf₂'
  have hgone (key : String) : key ∈ gone₁' ↔ key ∈ gone₂' := by
    rw [hg₁', hg₁, hg₂', hg₂]
    simp only [List.not_mem_nil, false_or]
    exact or_comm
  have herase : cache.store.records.erase gone₁' = cache.store.records.erase gone₂' :=
    Records.erase_congr hgone
  have hempty : gone₁' = [] ↔ gone₂' = [] := by
    simp only [List.eq_nil_iff_forall_not_mem, hgone]
  obtain rfl : final = final' := by rw [hs₁'.cache_eq, hs₂'.cache_eq, herase]
  refine ⟨a₁, a₂, cache₁, cache₂, final, w₁, w₂, w₁', w₂', hx₁, hx₁', hx₂, hx₂', ?_⟩
  rw [hs₁'.document, hs₂'.document, herase]
  simp only [hempty]

end Cache

end ScriptPack

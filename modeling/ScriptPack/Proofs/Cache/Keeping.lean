import ScriptPack.Proofs.Cache.Eviction
import ScriptPack.Proofs.Cache.Minting

/-!
What keeping a result does: a copy of it comes into the folder under a new id, and its record takes
the place of an older one, whose artifact goes. If anything fails, the entries are what they were.
-/

namespace ScriptPack.Cache

open Effect Node Lookup Files

variable {cache : Cache} {loc : Location} {w : World} {entries : List (String × Node)}
  {id signature : String} {shared : Bool}

/-- A finished copy gets its name, unless a folder would have to take the place of a link. -/
theorem rename_partial (hid : IsId id) {copied : List (String × Node)} {new : Node}
    (h : Open cache.directory loc copied w) (hl : copied.lookup (partialName id) = some new)
    (hv : Vacant copied id) :
    (∃ failure, rename (cache.directory ++ "/" ++ partialName id) (cache.directory ++ "/" ++ id) w =
      (.error (.failed failure), w)) ∨
    Does (rename (cache.directory ++ "/" ++ partialName id) (cache.directory ++ "/" ++ id)) w ()
      (put loc (.folder (setEntry id new (eraseEntry (partialName id) copied))) w.root) := by
  have hw := h.running.wellFormed
  have hne : partialName id ≠ id := (hid.ne_partial id).symm
  have hdoes (hk : ∀ there, copied.lookup id = some there →
      new.isFolder = false ∧ there.isFolder = false) :=
    rename_child h.running.steps hw h.normal h.holds hid.isName hne hl hk
  cases hthere : copied.lookup id with
  | none => exact .inr (hdoes fun there heq => nomatch hthere.symm.trans heq)
  | some there =>
      obtain ⟨target, rfl⟩ := hv there hthere
      by_cases hf : new.isFolder = true
      · cases new with
        | file content modified => cases hf
        | link aim => cases hf
        | folder below =>
            refine .inl ⟨_, rename_folder_onto (place?_child_found hw h.normal h.holds hl false nofun)
              (place?_child_found hw h.normal h.holds hthere false nofun) ?_ rfl⟩
            rw [List.prefix_append_right_inj]
            simpa using hne
      · refine .inr (hdoes fun there heq => ?_)
        cases hthere.symm.trans heq
        exact ⟨by simpa using hf, rfl⟩

/-- Copying in fails and leaves at most a partial copy, or the entry of the id is a copy. -/
theorem copyIn_open (hid : IsId id) (h : Open cache.directory loc entries w)
    (hp : entries.lookup (partialName id) = none) (hv : Vacant entries id) (output : String) :
    (∃ failure entries',
      Fails (cache.copyIn output (artifactPath cache.directory id)) w failure
        (put loc (.folder entries') w.root) ∧
      WellFormed (.folder entries') ∧
      ∀ name, name ≠ partialName id → entries'.lookup name = entries.lookup name) ∨
    ∃ origin node new, place? w.root false (absolute w output) = .ok (.found origin node) ∧
      Copies node new ∧
      Does (cache.copyIn output (artifactPath cache.directory id)) w new.size
        (put loc (.folder (setEntry id new entries)) w.root) := by
  have hw := h.running.wellFormed
  have hstep := isStep_of_isName hid.isName
  have hsorted := h.wellFormed.sorted
  have hremove : removeAll (cache.directory ++ "/" ++ partialName id) w = (.ok (), w) :=
    removeAll_free (place?_child_free hw h.normal h.holds hid.isName_partial hp false)
  have hbegin : cache.copyIn output (artifactPath cache.directory id) w = (do
      copy true output (cache.directory ++ "/" ++ partialName id)
      rename (cache.directory ++ "/" ++ partialName id) (cache.directory ++ "/" ++ id)
      size (cache.directory ++ "/" ++ id)) w := by
    rw [copyIn, partialPath_eq h.normal hstep, artifactPath_eq h.normal hstep,
      bind_ok h.makeFolders, bind_ok hremove]
  rcases copy_fresh h.running.steps hw h.normal h.holds hid.isName_partial hp output with
    ⟨failure, hf⟩ | ⟨origin, node, new, hplace, hc, w₁, hx, he⟩
  · refine .inl ⟨failure, entries, ?_, h.wellFormed, fun _ _ => rfl⟩
    rw [Fails, hbegin, h.put_entries]
    exact hf.bind
  · rw [put_child hw h.holds.at?_eq] at he
    have hwf := h.wellFormed.setEntry hid.isName_partial hc.wellFormed
    have ho := h.put hwf he
    have hl : (setEntry (partialName id) new entries).lookup (partialName id) = some new := by
      rw [lookup_setEntry hsorted, if_pos rfl]
    have hv' : Vacant (setEntry (partialName id) new entries) id := by
      intro there hthere
      rw [lookup_setEntry hsorted, if_neg (hid.ne_partial id)] at hthere
      exact hv there hthere
    rcases rename_partial hid ho hl hv' with ⟨failure, hf⟩ | hr
    · refine .inl ⟨failure, setEntry (partialName id) new entries, ⟨w₁, ?_, he⟩, hwf,
        fun name hn => ?_⟩
      · rw [hbegin, bind_ok hx, bind_error hf]
      · rw [lookup_setEntry hsorted, if_neg hn]
    · rw [eraseEntry_setEntry hsorted hp] at hr
      have hwf' := h.wellFormed.setEntry hid.isName hc.wellFormed
      refine .inr ⟨origin, node, new, hplace, hc, ?_⟩
      rw [Does, hbegin, bind_ok hx]
      refine h.does_after he (ho.bind hr hwf' fun w₂ ho₂ _ => ?_)
      refine ho₂.does_same (does_of_eq (size_child ho₂.running.wellFormed ho₂.normal ho₂.holds ?_))
      rw [lookup_setEntry hsorted, if_pos rfl]

/-! ### Recording -/

/-- The names of artifacts of which the record is replaced. -/
def outdated (records : Records) (entry : Entry) : List String :=
  ((records.get? entry.signature).toList.map (·.cacheId)).filter (· != entry.cacheId)

theorem removeOutdated_open (h : Open cache.directory loc entries w)
    (hn : ∀ e ∈ cache.store.records, IsName e.cacheId) (entry : Entry) :
    Does (cache.removeOutdated entry) w () (put loc (.folder (entries.filter fun e =>
      !(outdated cache.store.records entry).contains e.1)) w.root) := by
  have hall (hnone : outdated cache.store.records entry = []) : (entries.filter fun e =>
      !(outdated cache.store.records entry).contains e.1) = entries := by
    rw [hnone]
    exact List.filter_eq_self.mpr fun e _ => by simp
  rw [removeOutdated]
  cases hg : cache.store.records.get? entry.signature with
  | none =>
      rw [hall (by simp [outdated, hg])]
      exact h.does_same (does_pure () w)
  | some previous =>
      by_cases hne : previous.cacheId = entry.cacheId
      · rw [hall (by simp [outdated, hg, hne])]
        simp only [hne, bne_self_eq_false, Bool.false_eq_true, if_false]
        exact h.does_same (does_pure () w)
      · have hname := hn previous (Records.mem_of_get? hg).1
        have hremove := h.removePath hname
        rw [eraseEntry_eq_filter h.wellFormed.sorted,
          ← artifactPath_eq h.normal (isStep_of_isName hname)] at hremove
        have hone : (entries.filter fun e => !(outdated cache.store.records entry).contains e.1) =
            entries.filter (·.1 != previous.cacheId) := by
          refine List.filter_congr fun e _ => ?_
          by_cases he : e.1 = previous.cacheId <;> simp [outdated, hg, hne, he]
        rw [hone]
        simp only [bne_iff_ne, ne_eq, hne, not_false_eq_true, if_true]
        exact h.bind hremove (h.wellFormed.filter _) fun w' ho _ => ho.does_same (does_pure () w')

/-- Without a time there is no record, and the copy goes again. -/
theorem record_undated (hroot : cache.store.root = cache.directory) (entry : Entry)
    (hid : IsId entry.cacheId) (h : Open cache.directory loc entries w)
    (ht : entry.storedAt = .invalid) :
    Does (cache.record entry) w (false, cache)
      (put loc (.folder (eraseEntry entry.cacheId entries)) w.root) := by
  have hremove := h.removePath hid.isName
  rw [← artifactPath_eq h.normal (isStep_of_isName hid.isName)] at hremove
  cases hs : Document.serialize (cache.store.records.set entry) with
  | ok text =>
      exact absurd ht (Document.dated_of_serialize hs entry (Records.self_mem_set _ _))
  | error failure =>
      rw [← hroot] at h
      have hset : cache.store.set entry w = (.error (.failed failure), w) :=
        commit_open_error h hs
      rw [hroot] at h
      rw [record, Does, bind_ok (attempt_failed hset)]
      refine h.bind hremove (h.wellFormed.eraseEntry _) fun w' ho _ => ?_
      exact ho.bind_same (warnFailed_does _ _ _ w') fun w'' ho' _ =>
        ho'.does_same (does_pure _ w'')

/-- The cache with one more record, before eviction. -/
def recorded (cache : Cache) (entry : Entry) : Cache :=
  cache.withRecords (cache.store.records.set entry)

/-- The entries after an outdated artifact is gone and others are evicted. -/
def Recorded (cache : Cache) (entry : Entry) (entries entries' : List (String × Node)) : Prop :=
  ∃ between, (∀ name, isDocumentName name = false → between.lookup name =
      if (outdated cache.store.records entry).contains name then none else entries.lookup name) ∧
    Evicted (cache.recorded entry) between entries'

theorem record_filed (hroot : cache.store.root = cache.directory) (entry : Entry)
    (h : Open cache.directory loc entries w) (hc : Consistent shared entries cache.store.records)
    (hf : Filed entry) :
    ∃ entries', Does (cache.record entry) w (true, (cache.recorded entry).afterEviction)
        (put loc (.folder entries') w.root) ∧
      WellFormed (.folder entries') ∧
      Consistent shared entries' (cache.recorded entry).afterEviction.store.records ∧
      Recorded cache entry entries entries' := by
  have hsorted := h.wellFormed.sorted
  have hfiled : ∀ e ∈ cache.store.records.set entry, Filed e := fun e he =>
    (Records.mem_set he).elim (fun heq => heq ▸ hf) fun hmem => hc.filed e hmem.1
  obtain ⟨text, ht⟩ := Document.serialize_of_dated fun e he => (hfiled e he).dated
  have hkeep : (!(outdated cache.store.records entry).contains documentName) = true := by
    simp only [outdated, Bool.not_eq_true', List.contains_eq_mem, decide_eq_false_iff_not,
      List.mem_filter, List.mem_map, Option.mem_toList, not_and]
    rintro ⟨previous, hp, hname⟩
    have hid := (hc.filed previous (Records.mem_of_get? hp).1).isId
    exact absurd hname (ne_documentName hid.not_document)
  have hset : Does (cache.store.set entry) w _ _ := commit_open (hroot ▸ h) hc.tidy ht
  rw [record]
  refine h.bind_exists hset.attempt (h.wellFormed.setEntry isName_documentName (.file _ _))
    fun w₁ ho₁ he₁ => ?_
  have hc₁ : Consistent shared _ (cache.store.records.set entry) :=
    hc.commit hsorted ht hfiled (Records.nodup_set hc.distinct entry) w.stamp
  have hremove := removeOutdated_open ho₁ (fun e he => (hc.filed e he).isId.isName) entry
  refine ho₁.bind_exists hremove (ho₁.wellFormed.filter _) fun w₂ ho₂ _ => ?_
  have hc₂ := hc₁.filter (fun name => !(outdated cache.store.records entry).contains name) hkeep
  refine ho₂.bind_exists (ho₂.does_same (logFields_does _ _ _ w₂)) ho₂.wellFormed
    fun w₃ ho₃ _ => ?_
  refine ho₃.bind_exists (ho₃.does_same (traceInfo_does _ _ w₃)) ho₃.wellFormed
    fun w₄ ho₄ _ => ?_
  obtain ⟨entries', hd, hwf, hc', hl⟩ := evict_open
    (show (cache.recorded entry).store.root = (cache.recorded entry).directory from hroot) ho₄ hc₂
  refine ⟨entries', ?_, hwf, hc', _, fun name hn => ?_, hl⟩
  · exact ho₄.bind hd hwf fun w' ho _ => ho.does_same (does_pure _ w')
  · rw [lookup_filter (fun n => !(outdated cache.store.records entry).contains n),
      lookup_setEntry hsorted, if_neg (ne_documentName hn)]
    cases (outdated cache.store.records entry).contains name <;> rfl

/-! ### Keeping -/

/-- Copying in makes the folder and is then the same in that folder. -/
theorem keepAs_made {w' : World} (hx : Files.makeFolders cache.directory w = (.ok (), w'))
    (hx' : Files.makeFolders cache.directory w' = (.ok (), w'))
    (signature script invocation output : String) :
    cache.keepAs id signature script invocation output w =
      cache.keepAs id signature script invocation output w' := by
  have hcopyIn : cache.copyIn output (artifactPath cache.directory id) w =
      cache.copyIn output (artifactPath cache.directory id) w' := by
    rw [copyIn, bind_ok hx, bind_ok hx']
  rw [keepAs]
  refine bind_congr_apply ?_
  simp only [attempt, hcopyIn]

/-- What was copied in is recorded. -/
theorem keepAs_copied {w' : World} {output : String} {size : Nat}
    (hx : cache.copyIn output (artifactPath cache.directory id) w = (.ok size, w'))
    (signature script invocation : String) :
    cache.keepAs id signature script invocation output w =
      cache.record ⟨signature, id, .ofNumber w'.clock, Path.resolve w'.workingDirectory script,
        invocation, .ofNat size⟩ w' := by
  rw [keepAs, bind_ok (attempt_ok hx)]
  rfl

/-- The entries when nothing is kept: those of before, without the id that was tried. -/
def Unkept (entries entries' : List (String × Node)) (id : String) : Prop :=
  ∀ name, entries'.lookup name = if name = id then none else entries.lookup name

/-- After a copy has failed, nothing is left of it. -/
theorem cleanUp_does (hid : IsId id) (h : Open cache.directory loc entries w) (what : String)
    (failure : Failure) :
    Does (do
        let _ ← removePath (partialPath (artifactPath cache.directory id))
        let _ ← removePath (artifactPath cache.directory id)
        warnFailed .cacheWriteFailed what failure
        return (false, cache)) w (false, cache)
      (put loc (.folder (eraseEntry id (eraseEntry (partialName id) entries))) w.root) := by
  have hstep := isStep_of_isName hid.isName
  have hpartial := h.removePath hid.isName_partial
  rw [← partialPath_eq h.normal hstep] at hpartial
  have hwf := h.wellFormed.eraseEntry (partialName id)
  refine h.bind hpartial hwf fun w₁ ho₁ _ => ?_
  have hartifact := ho₁.removePath hid.isName
  rw [← artifactPath_eq h.normal hstep] at hartifact
  refine ho₁.bind hartifact (hwf.eraseEntry id) fun w₂ ho₂ _ => ?_
  exact ho₂.bind_same (warnFailed_does _ _ _ w₂) fun w₃ ho₃ _ => ho₃.does_same (does_pure _ w₃)

theorem unkept_cleanUp (hid : IsId id) {records : Records} {left : List (String × Node)}
    (hc : Consistent shared entries records) (hw : WellFormed (.folder left))
    (hl : ∀ name, name ≠ partialName id → left.lookup name = entries.lookup name) :
    Consistent shared (eraseEntry id (eraseEntry (partialName id) left)) records ∧
      Unkept entries (eraseEntry id (eraseEntry (partialName id) left)) id := by
  have hlookup : Unkept entries (eraseEntry id (eraseEntry (partialName id) left)) id := by
    intro name
    rw [lookup_eraseEntry (hw.eraseEntry _).sorted, lookup_eraseEntry hw.sorted]
    split
    · rfl
    · split
      · rename_i heq
        rw [heq, hc.partial_free hid]
      · rename_i hne
        exact hl name hne
  refine ⟨hc.congr ?_ fun name node hn => ?_, hlookup⟩
  · rw [hlookup, if_neg (ne_documentName hid.not_document).symm]
  · rw [hlookup] at hn
    split at hn
    · cases hn
    · exact hc.names name node hn

/-- Keeping under a vacant id of now fails, or there is an entry with its copy. -/
theorem keepAs_open (hroot : cache.store.root = cache.directory)
    (h : Open cache.directory loc entries w) (hc : Consistent shared entries cache.store.records)
    (hd : Signature.IsDigest signature) {n : Nat}
    (hid : id = numberedId (baseId signature w.clock) n) (hv : Vacant entries id)
    (script invocation output : String) :
    (∃ entries', Does (cache.keepAs id signature script invocation output) w (false, cache)
        (put loc (.folder entries') w.root) ∧
      WellFormed (.folder entries') ∧ Consistent shared entries' cache.store.records ∧
      Unkept entries entries' id) ∨
    ∃ entry origin node new entries',
      Does (cache.keepAs id signature script invocation output) w
        (true, (cache.recorded entry).afterEviction) (put loc (.folder entries') w.root) ∧
      WellFormed (.folder entries') ∧
      Consistent shared entries' (cache.recorded entry).afterEviction.store.records ∧
      Filed entry ∧ entry.signature = signature ∧ entry.cacheId = id ∧
      entry.storedAt = .ofNumber w.clock ∧ entry.sizeBytes = .ofNat new.size ∧
      place? w.root false (absolute w output) = .ok (.found origin node) ∧ Copies node new ∧
      Recorded cache entry (setEntry id new entries) entries' := by
  have hisId : IsId id := hid ▸ (isId_baseId hd w.clock).numbered n
  rcases copyIn_open hisId h (hc.partial_free hisId) hv output with
    ⟨failure, left, hf, hwf, hl⟩ | ⟨origin, node, new, hplace, hcopy, hx⟩
  · obtain ⟨w₁, hx, he⟩ := hf.attempt
    obtain ⟨w₂, hx₂, he₂⟩ := cleanUp_does hisId (h.put hwf he)
      ("cannot copy " ++ output ++ " into the cache") failure
    have hwf' := (hwf.eraseEntry (partialName id)).eraseEntry id
    refine .inl ⟨_, ⟨w₂, ?_, h.trans he he₂⟩, hwf', unkept_cleanUp hisId hc hwf hl⟩
    rw [keepAs, bind_ok hx]
    exact hx₂
  · have hwf := h.wellFormed.setEntry hisId.isName hcopy.wellFormed
    obtain ⟨w₁, hx, he⟩ := hx
    have ho := h.put hwf he
    have hc₁ := hc.setEntry h.wellFormed.sorted hisId new
    obtain ⟨source, hkeep⟩ : ∃ source, cache.keepAs id signature script invocation output w =
        cache.record ⟨signature, id, .ofNumber w.clock, source, invocation, .ofNat new.size⟩ w₁ := by
      refine ⟨Path.resolve w₁.workingDirectory script, ?_⟩
      rw [keepAs_copied hx, he.clock_eq]
    by_cases ht : Timestamp.ofNumber w.clock = .invalid
    · obtain ⟨w₂, hx₂, he₂⟩ := record_undated hroot
        ⟨signature, id, .ofNumber w.clock, source, invocation, .ofNat new.size⟩ hisId ho ht
      refine .inl ⟨_, ⟨w₂, hkeep.trans hx₂, h.trans he he₂⟩, hwf.eraseEntry id,
        hc₁.eraseEntry hwf.sorted hisId, fun name => ?_⟩
      rw [lookup_eraseEntry hwf.sorted, lookup_setEntry h.wellFormed.sorted]
      split <;> rfl
    · have hfiled : Filed ⟨signature, id, .ofNumber w.clock, source, invocation, .ofNat new.size⟩ :=
        ⟨hd, ht, ⟨w.clock, n, rfl, hid⟩, ⟨new.size, rfl⟩⟩
      obtain ⟨entries', ⟨w₂, hx₂, he₂⟩, hwf', hc', hl⟩ := record_filed hroot
        ⟨signature, id, .ofNumber w.clock, source, invocation, .ofNat new.size⟩ ho hc₁ hfiled
      exact .inr ⟨_, origin, node, new, entries', ⟨w₂, hkeep.trans hx₂, h.trans he he₂⟩, hwf', hc',
        hfiled, rfl, rfl, rfl, rfl, hplace, hcopy, hl⟩

/-- The entries after nothing is kept. -/
def LeavesOut (entries entries' : List (String × Node)) : Prop :=
  entries' = entries ∨ ∃ id, Vacant entries id ∧ Unkept entries entries' id

/-- Where the folder of a path is, or would be made. -/
def folderLocation (root : Node) (dir : String) : Location :=
  canonicalFrom root linkLimit [] (Path.names dir)

/-- An entry is kept with a copy of an output that does not contain the folder of the cache. -/
structure TakesIn (cache : Cache) (w : World) (output : String) (entry : Entry) (new : Node)
    (entries entries' : List (String × Node)) : Prop where
  filed : Filed entry
  vacant : Vacant entries entry.cacheId
  stamped : entry.storedAt = .ofNumber w.clock
  size : entry.sizeBytes = .ofNat new.size
  copies : ∀ origin node, place? w.root false (absolute w output) = .ok (.found origin node) →
    ¬origin <+: folderLocation w.root cache.directory → Copies node new
  recorded : Recorded cache entry (setEntry entry.cacheId new entries) entries'

theorem keepAs_closed (h : Closed cache.directory w) (hid : IsId id) {failure : Failure}
    (hx : Files.makeFolders cache.directory w = (.error (.failed failure), w))
    (signature script invocation output : String) :
    Does (cache.keepAs id signature script invocation output) w (false, cache) w.root := by
  have hcopy : cache.copyIn output (artifactPath cache.directory id) w =
      (.error (.failed failure), w) := by
    rw [copyIn, bind_error hx]
  have hpartial := isStep_of_isName hid.isName_partial
  obtain ⟨gone, w₁, hx₁, he₁⟩ := h.removePath hpartial
  have hm₁ := h.same he₁
  obtain ⟨gone', w₂, hx₂, he₂⟩ := hm₁.removePath (isStep_of_isName hid.isName)
  rw [← partialPath_eq h.normal (isStep_of_isName hid.isName)] at hx₁
  rw [← artifactPath_eq h.normal (isStep_of_isName hid.isName)] at hx₂
  rw [keepAs, Does, bind_ok (attempt_failed hcopy)]
  simp only
  rw [bind_ok hx₁, bind_ok hx₂]
  obtain ⟨w₃, hx₃, he₃⟩ := warnFailed_does .cacheWriteFailed
    ("cannot copy " ++ output ++ " into the cache") failure w₂
  rw [bind_ok hx₃]
  rw [he₁.root_eq] at he₂
  rw [he₂.root_eq] at he₃
  exact ⟨w₃, rfl, he₁.trans (he₂.trans he₃)⟩

/-- Keeping at a folder that may be missing. -/
theorem mintAndKeep_cases (h : Stands shared cache entries w) (hd : Signature.IsDigest signature)
    (script invocation output : String) :
    (∃ entries' w', cache.mintAndKeep signature script invocation output w =
        (.ok (false, cache), w') ∧
      Stands shared cache entries' w' ∧ LeavesOut entries entries') ∨
    ∃ entry new entries' w', cache.mintAndKeep signature script invocation output w =
        (.ok (true, (cache.recorded entry).afterEviction), w') ∧
      Stands shared (cache.recorded entry).afterEviction entries' w' ∧
      entry.signature = signature ∧ cache.TakesIn w output entry new entries entries' := by
  have hroot := h.root_eq
  have hc := h.consistent
  -- The part after the folder is there is the same whether it has been there before or not.
  have hgo {w₁ : World} {loc : Location} {n : Nat} (ho : Open cache.directory loc entries w₁)
      (hclock : w₁.clock = w.clock)
      (hx : cache.mintAndKeep signature script invocation output w =
        cache.keepAs (numberedId (baseId signature w₁.clock) n) signature script invocation output
          w₁)
      (hv : Vacant entries (numberedId (baseId signature w₁.clock) n))
      (hcopies : ∀ origin origin' node node' new,
        place? w₁.root false (absolute w₁ output) = .ok (.found origin' node') →
        place? w.root false (absolute w output) = .ok (.found origin node) →
        ¬origin <+: folderLocation w.root cache.directory → Copies node' new → Copies node new) :
      (∃ entries' w', cache.mintAndKeep signature script invocation output w =
          (.ok (false, cache), w') ∧
        Stands shared cache entries' w' ∧ LeavesOut entries entries') ∨
      ∃ entry new entries' w', cache.mintAndKeep signature script invocation output w =
          (.ok (true, (cache.recorded entry).afterEviction), w') ∧
        Stands shared (cache.recorded entry).afterEviction entries' w' ∧
        entry.signature = signature ∧ cache.TakesIn w output entry new entries entries' := by
    rcases keepAs_open hroot ho hc hd rfl hv script invocation output with
      ⟨entries', ⟨w', hx', he⟩, hwf, hc', hu⟩ |
      ⟨entry, origin, node, new, entries', ⟨w', hx', he⟩, hwf, hc', hf, hs, hid, ht, hsize, hp, hcopy,
        hk⟩
    · exact .inl ⟨entries', w', hx.trans hx', ⟨hroot, .inr ⟨loc, ho.put hwf he⟩, hc'⟩,
        .inr ⟨_, hv, hu⟩⟩
    · refine .inr ⟨entry, new, entries', w', hx.trans hx',
        ⟨hroot, .inr ⟨loc, ho.put hwf he⟩, hc'⟩, hs, hf, hid ▸ hv, hclock ▸ ht, hsize, ?_, hid ▸ hk⟩
      exact fun origin' node' hp' hn => hcopies origin' origin node' node new hp hp' hn hcopy
  rcases h.shelf with ⟨hm, rfl⟩ | ⟨loc, ho⟩
  · have hmint := mintId_closed hm.closed signature
    have hisId := (isId_baseId hd w.clock).numbered 0
    have hbegin : cache.mintAndKeep signature script invocation output w =
        cache.keepAs (numberedId (baseId signature w.clock) 0) signature script invocation output
          w := by
      rw [mintAndKeep, bind_ok hmint]
    rcases hm.closed.makeFolders with ⟨failure, hf⟩ | ⟨root, loc, ⟨w₁, hx, he⟩, hadds, hcanon, hopen⟩
    · obtain ⟨w', hx, he⟩ := keepAs_closed hm.closed hisId hf signature script invocation output
      exact .inl ⟨[], w', hbegin.trans hx, h.same he, .inl rfl⟩
    · have ho := hopen w₁ he
      have hplace (origin node) (hp : place? w.root false (absolute w output) =
          .ok (.found origin node)) (hn : ¬origin <+: folderLocation w.root cache.directory) :
          place? w₁.root false (absolute w₁ output) = .ok (.found origin node) := by
        have hat := hadds.same origin node (place?_found hp) (hcanon ▸ hn)
        have hf : false = true → false = true := id
        rw [he.root_eq, he.absolute_eq]
        exact place?_carry_found hadds.keeps hf hp hat nofun
      refine hgo (n := 0) ho he.clock_eq (hbegin.trans ?_) (fun node hl => nomatch hl)
        fun origin origin' node node' new hp hp' hn hcopy => ?_
      · rw [he.clock_eq]
        exact keepAs_made hx ho.makeFolders signature script invocation output
      · cases (hplace origin node hp' hn).symm.trans hp
        exact hcopy
  · obtain ⟨n, hmint, hv⟩ := mintId_open ho hd
    refine hgo ho rfl (n := n) ?_ hv fun origin origin' node node' new hp hp' _ hcopy => ?_
    · rw [mintAndKeep, bind_ok hmint]
    · cases hp.symm.trans hp'
      exact hcopy

/-- Everything that is asked before a result is copied in: the cache is in use, the result is there,
and the script can be read and has the signature that is expected of it. -/
structure Proceeds (cache : Cache) (w : World) (script invocation output : String)
    (expected : Option String) (signature : String) : Prop where
  enabled : cache.settings.enabled = true
  there : Leads? w.root (absolute w output)
  signature_eq : Files.signature script invocation w = (.ok signature, w)
  expected_eq : ∀ s ∈ expected, s = signature

/-- Keeping ends before anything is copied, or is keeping under the signature of the script. -/
theorem keep_proceeds (cache : Cache) (w : World) (script invocation output : String)
    (expected : Option String) :
    ((∀ signature, ¬cache.Proceeds w script invocation output expected signature) ∧
      Does (cache.keep script invocation output expected) w (false, cache) w.root) ∨
    ∃ signature, cache.Proceeds w script invocation output expected signature ∧
      cache.keep script invocation output expected w =
        cache.mintAndKeep signature script invocation output w := by
  have hout {failing : Effect Unit} (hf : Does failing w () w.root) :
      Does (do failing; return (false, cache)) w (false, cache) w.root :=
    hf.bind fun w' he => by
      rw [← he.root_eq]
      exact does_pure _ w'
  by_cases henabled : cache.settings.enabled = true
  · have hbegin : cache.keep script invocation output expected w =
        cache.keep script invocation output expected w := rfl
    conv at hbegin =>
      rhs
      rw [keep, henabled]
      simp only [Bool.not_true, Bool.false_eq_true, if_false]
    by_cases hthere : Leads? w.root (absolute w output)
    · obtain ⟨place, node, hp⟩ := hthere
      rw [bind_ok (exists?_of_found hp)] at hbegin
      simp only [Bool.not_true, Bool.false_eq_true, if_false] at hbegin
      rcases signature?_cases script invocation w with ⟨signature, hs, hs'⟩ | ⟨w', hx, he⟩
      · rw [bind_ok hs'] at hbegin
        simp only at hbegin
        by_cases hexpected : expected.any (· != signature) = true
        · rw [if_pos hexpected] at hbegin
          refine .inl ⟨fun other h => ?_, by rw [Does, hbegin]; exact hout (logFields_does _ _ _ w)⟩
          cases h.signature_eq.symm.trans hs
          obtain ⟨s, hmem, hne⟩ := (Option.any_eq_true _ _).mp hexpected
          exact (bne_iff_ne.mp hne) (h.expected_eq s hmem)
        · rw [if_neg hexpected] at hbegin
          refine .inr ⟨signature, ⟨henabled, ⟨place, node, hp⟩, hs, fun s hs => ?_⟩, hbegin⟩
          by_contra hne
          refine hexpected ?_
          rw [Option.mem_def.mp hs]
          simpa using hne
      · rw [bind_ok hx] at hbegin
        refine .inl ⟨fun signature h => ?_, w', hbegin, he⟩
        cases hx.symm.trans (signature?_ok h.signature_eq)
    · rw [bind_ok (exists?_of_not hthere)] at hbegin
      refine .inl ⟨fun signature h => hthere h.there, ?_⟩
      rw [Does, hbegin]
      exact hout (logFields_does _ _ _ w)
  · refine .inl ⟨fun signature h => henabled h.enabled, does_of_eq ?_⟩
    rw [keep, Bool.eq_false_iff.mpr henabled]
    rfl

/-- Keeping leaves a result out, or takes it in under the signature that the script has now. -/
theorem keep_cases (h : Stands shared cache entries w) (script invocation output : String)
    (expected : Option String) :
    (∃ entries' w', cache.keep script invocation output expected w = (.ok (false, cache), w') ∧
      Stands shared cache entries' w' ∧ LeavesOut entries entries') ∨
    ∃ entry new entries' w', cache.keep script invocation output expected w =
        (.ok (true, (cache.recorded entry).afterEviction), w') ∧
      Stands shared (cache.recorded entry).afterEviction entries' w' ∧
      Files.signature script invocation w = (.ok entry.signature, w) ∧
      (∀ signature ∈ expected, signature = entry.signature) ∧
      Leads? w.root (absolute w output) ∧ cache.TakesIn w output entry new entries entries' := by
  rcases cache.keep_proceeds w script invocation output expected with
    ⟨-, w', hx, he⟩ | ⟨signature, hp, hx⟩
  · exact .inl ⟨entries, w', hx, h.same he, .inl rfl⟩
  · rcases mintAndKeep_cases h (isDigest_of_signature hp.signature_eq) script invocation output with
      ⟨entries', w', hx', hl⟩ | ⟨entry, new, entries', w', hx', hstands, rfl, ht⟩
    · exact .inl ⟨entries', w', hx.trans hx', hl⟩
    · exact .inr ⟨entry, new, entries', w', hx.trans hx', hstands, hp.signature_eq, hp.expected_eq,
        hp.there, ht⟩

end ScriptPack.Cache

import ScriptPack.Proofs.Cache.HaltedKeeping
import ScriptPack.Proofs.Cache.Restart
import ScriptPack.Proofs.Cache.Trimming

/-!
Recovery. Wherever keeping a result is stopped, a cache that is opened on what is left has the records
of before or those of after, with all their artifacts; and its next eviction clears away the rest.
Where an eviction is stopped, the artifacts that it was to remove may have lost a part, and no others.
-/

namespace ScriptPack.Cache

open Effect Node Lookup Files

variable {cache : Cache} {dir : String} {w : World} {entries : List (String × Node)}
  {records : Records} {made : Entry → Node → Prop} {shared : Bool}

theorem Missing.contents_eq (h : Missing dir w) : contents dir w = [] := h.closed.contents_eq

theorem Shelf.contents_eq (h : Shelf dir entries w) : contents dir w = entries := by
  rcases h with ⟨hm, rfl⟩ | ⟨loc, ho⟩
  · exact hm.contents_eq
  · exact ho.contents_eq

theorem Shelf.grounded (h : Shelf dir entries w)
    (hd : ∀ target, entries.lookup (draftName w.processId) ≠ some (.link target)) :
    Grounded dir w := by
  rcases h with ⟨hm, -⟩ | ⟨loc, ho⟩
  · exact ⟨hm.running, hm.normal, fun loc entries hl => absurd hl (hm.closed.closed loc entries),
      fun loc entries hl => absurd hl (hm.closed.closed loc entries)⟩
  · exact .of_open ho hd

/-- A process that finds a folder as another one has left it. -/
theorem Lies.shelf {Q : List (String × Node) → Prop} (h : Lies dir Q w.root)
    (hd : Path.IsNormal dir) (hs : w.stepsLeft = none) (hc : '\x00' ∉ w.workingDirectory.toList)
    (hp : IsProcessId w.processId) : ∃ entries, Shelf dir entries w ∧ Q entries := by
  have hr : w.Running := ⟨hs, h.wellFormed, h.folder, hc, hp⟩
  rcases h.cases with ⟨hm, hq⟩ | ⟨loc, entries, hh, hq⟩
  · exact ⟨[], .inl ⟨⟨hr, hd, hm⟩, rfl⟩, hq⟩
  · exact ⟨entries, .inr ⟨loc, hr, hd, hh⟩, hq⟩

/-- Eviction leaves nothing but the artifacts of records and what is named like the document. -/
theorem Shelf.evict (h : Shelf cache.directory entries w) (hroot : cache.store.root = cache.directory)
    (hs : Spared cache.store.records entries entries)
    (hf : ∀ e ∈ cache.store.records, Filed e)
    (hids : (cache.store.records.map (·.cacheId)).Nodup)
    (hsignatures : (cache.store.records.map (·.signature)).Nodup) :
    ∃ w', cache.evict w = (.ok (cache.evicted.length, cache.afterEviction), w') ∧
      (∀ e ∈ cache.afterEviction.store.records,
        (contents cache.directory w').lookup e.cacheId = entries.lookup e.cacheId) ∧
      ∀ name node, (contents cache.directory w').lookup name = some node →
        isDocumentName name = true ∨ ∃ e ∈ cache.afterEviction.store.records, e.cacheId = name := by
  have hdoc : ∀ e ∈ cache.store.records, isDocumentName e.cacheId = false := fun e he =>
    (hf e he).isId.not_document
  have hdated : ∀ e ∈ cache.store.records, e.storedAt ≠ .invalid := fun e he => (hf e he).dated
  have hdraft := fun node hl => hs.drafts (draftName w.processId) node hl (isDocumentName_draftName _)
  have hmissing (hnil : entries = []) : cache.evicted = [] := by
    have hnone : cache.store.records = [] := by
      rcases hs.listed with ⟨-, hnone⟩ | ⟨text, stamp, -, hl⟩
      · exact hnone
      · rw [hnil] at hl
        cases hl
    exact List.eq_nil_iff_forall_not_mem.mpr fun e he =>
      List.not_mem_nil (hnone ▸ mem_records_of_mem_evicted he)
  have hremoved : ∀ e ∈ cache.evicted, (removePath (cache.artifact e) w).1 = .ok true := fun e he => by
    rcases h with ⟨-, rfl⟩ | ⟨loc, ho⟩
    · rw [hmissing rfl] at he
      cases he
    · have hname := (hf e (mem_records_of_mem_evicted he)).isId.isName
      obtain ⟨w', hx, -⟩ := ho.removePath hname
      rw [artifact, artifactPath_eq ho.normal (isStep_of_isName hname), hx]
  have hcommitted (hne : cache.evicted ≠ []) : ∃ store w',
      cache.store.commit cache.afterEviction.store.records w = (.ok store, w') := by
    rcases h with ⟨-, rfl⟩ | ⟨loc, ho⟩
    · exact absurd (hmissing rfl) hne
    · obtain ⟨text, hserial⟩ := Document.serialize_of_dated
        fun e he => hdated e (Records.mem_erase.mp he).1
      have hstore : Open cache.store.root loc entries w := hroot.symm ▸ ho
      have hwritable : Writable w.processId entries := by
        refine ⟨fun node hl => ?_, hdraft⟩
        have hfile := hs.drafts documentName node hl (by decide)
        cases node with
        | file content modified => rfl
        | folder below => cases hfile
        | link target => cases hfile
      obtain ⟨w', hx, -⟩ := commit_writable hstore hwritable hserial
      exact ⟨_, w', hx⟩
  obtain ⟨w', hx, ht⟩ := evict_trims (h.grounded fun target hl => by cases hdraft _ hl) hroot
    (fun e he => (hf e he).isId.isName) hdoc hdated hremoved hcommitted
  rw [h.contents_eq] at ht
  refine ⟨w', hx, fun e he => ?_, fun name node hl => ?_⟩
  · obtain ⟨hmem, hstays⟩ := Records.mem_erase.mp he
    rw [ht.artifacts _ (hdoc e hmem), if_pos (spares_of_mem hids hmem fun hv =>
      hstays (List.mem_map_of_mem hv))]
  · by_cases hn : isDocumentName name = true
    · exact .inl hn
    · have hn' : isDocumentName name = false := by simpa using hn
      rw [ht.artifacts name hn'] at hl
      split at hl
      · rename_i hspares
        obtain ⟨e, he, hstays, rfl⟩ := exists_of_spares hspares hn'
        refine .inr ⟨e, Records.mem_erase.mpr ⟨he, fun hv => hstays ?_⟩, rfl⟩
        obtain ⟨victim, hvictim, hsame⟩ := List.mem_map.mp hv
        rwa [← List.inj_on_of_nodup_map hsignatures (mem_records_of_mem_evicted hvictim) he hsame]
      · cases hl

/-- A cache that is opened on a folder has the records that its document lists, and the next eviction
leaves the artifacts of those that stay. -/
theorem Shelf.reopen {settings : CacheSettings} (h : Shelf settings.directory entries w)
    (hs : Spared records entries entries) (hf : ∀ e ∈ records, Filed e)
    (hids : (records.map (·.cacheId)).Nodup) (hsignatures : (records.map (·.signature)).Nodup)
    (hfinite : ∀ e ∈ records, e.sizeBytes.isFinite = true) :
    ∃ reopened, Cache.load settings w = (.ok reopened, w) ∧ reopened.store.records = records ∧
      reopened.directory = settings.directory ∧
      ∃ count evicted w', reopened.evict w = (.ok (count, evicted), w') ∧
        (∀ e ∈ evicted.store.records, (contents settings.directory w').lookup e.cacheId =
          (contents settings.directory w).lookup e.cacheId) ∧
        ∀ name node, (contents settings.directory w').lookup name = some node →
          isDocumentName name = true ∨ ∃ e ∈ evicted.store.records, e.cacheId = name := by
  have hload := h.load hs.listed (fun e he => (hf e he).restorable) hsignatures
  have hsame : records.map Document.restored = records :=
    (List.map_congr_left fun e he => Document.restored_eq_self (hfinite e he)).trans (List.map_id _)
  rw [hsame] at hload
  let reopened : Cache := ⟨settings, ⟨settings.directory, records⟩⟩
  have hshelf : Shelf reopened.directory entries w := h
  obtain ⟨w', hevict, hstay, hgone⟩ := hshelf.evict rfl hs hf hids hsignatures
  exact ⟨reopened, load_of_store (h.normal.resolve_eq w.workingDirectory) hload, rfl, rfl, _, _, w',
    hevict, by rw [h.contents_eq]; exact hstay, hgone⟩

/-- A cache that is opened where the folder lists and holds what it held at some time. -/
theorem Shelf.recover {settings : CacheSettings} {old : List (String × Node)}
    (h : Shelf settings.directory entries w) (hs : Spared records old entries)
    (hc : Consistent false old records) (hx : Exact made old records)
    (hf : ∀ e ∈ records, e.sizeBytes.isFinite = true) :
    ∃ reopened, Cache.load settings w = (.ok reopened, w) ∧ reopened.store.records = records ∧
      (∀ e ∈ records, ∃ node, (contents settings.directory w).lookup e.cacheId = some node ∧
        made e node ∧ e.sizeBytes = .ofNat node.size) ∧
      ∃ count evicted w', reopened.evict w = (.ok (count, evicted), w') ∧
        (∀ e ∈ evicted.store.records, (contents settings.directory w').lookup e.cacheId =
          (contents settings.directory w).lookup e.cacheId) ∧
        ∀ name node, (contents settings.directory w').lookup name = some node →
          isDocumentName name = true ∨ ∃ e ∈ evicted.store.records, e.cacheId = name := by
  obtain ⟨reopened, hload, hrecords, -, hevict⟩ := h.reopen (hs.relative hs.artifacts) hc.filed
    (hx.nodup hc.distinct) hc.distinct hf
  have hfound := hx.congr hs.artifacts
  refine ⟨reopened, hload, hrecords, fun e he => ?_, hevict⟩
  obtain ⟨node, hl, -, hsize, hmade⟩ := hfound.stored e he
  exact ⟨node, by rw [h.contents_eq, hl], hmade, hsize⟩

/-- A cache that was opened on `built`, where its folder is missing. -/
def fresh : State := ⟨⟨⟨true, "/W/c", 1, 30⟩, ⟨"/W/c", []⟩⟩, built⟩

/-- The artifact of a record is in the folder, as large as recorded, with the contents of the tree that
it was stored from. -/
def Whole (s₀ s : State) (w : World) (e : Entry) : Prop :=
  ∃ node, (contents s.cache.directory w).lookup e.cacheId = some node ∧ Stored s₀ s e node ∧
    e.sizeBytes = .ofNat node.size

/-- Wherever an eviction is stopped: a later process that opens a cache on the folder finds the
records of before or those that the eviction would have left. Each of them is whole unless the
eviction was to drop it, so that of all that a lookup finds only such an artifact may have lost a
part; and the next eviction clears away what has no record. -/
theorem Run.evict_interrupted {settings : CacheSettings} {s₀ s : State} (h₀ : Starts settings s₀)
    (h : Run GivesTree s₀ s) (hf : ∀ e ∈ s.cache.store.records, e.sizeBytes.isFinite = true) (n : Nat)
    (hroot : w.root = (s.cache.evict (s.world.stopAfter n)).2.root)
    (hs : w.stepsLeft = none) (hc : '\x00' ∉ w.workingDirectory.toList)
    (hp : IsProcessId w.processId) :
    ∃ reopened, load s.cache.settings w = (.ok reopened, w) ∧
      (reopened.store.records = s.cache.store.records ∨
        reopened.store.records = s.cache.afterEviction.store.records) ∧
      (∀ e ∈ reopened.store.records, e ∉ s.cache.evicted → Whole s₀ s w e) ∧
      (∀ signature path cache' w',
        reopened.lookupSignature signature w = (.ok (some path, cache'), w') →
        ∃ e ∈ reopened.store.records, e.signature = signature ∧ path = s.cache.artifact e ∧
          (e ∈ s.cache.evicted ∨ Whole s₀ s w e)) ∧
      ∃ count evicted w', reopened.evict w = (.ok (count, evicted), w') ∧
        (∀ e ∈ evicted.store.records, (contents s.cache.directory w').lookup e.cacheId =
          (contents s.cache.directory w).lookup e.cacheId) ∧
        ∀ name node, (contents s.cache.directory w').lookup name = some node →
          isDocumentName name = true ∨ ∃ e ∈ evicted.store.records, e.cacheId = name := by
  obtain ⟨entries, hstands, hexact⟩ := h.inventory h₀
  have hconsistent := hstands.consistent
  have hids := hexact.nodup hconsistent.distinct
  have hlies := evict_stops hstands hids _ (.stopAfter s.world n)
  rw [← hroot] at hlies
  obtain ⟨left, hshelf, hleft⟩ := hlies.shelf hstands.shelf.normal hs hc hp
  have hwhole (e : Entry) (he : e ∈ s.cache.store.records)
      (hl : left.lookup e.cacheId = entries.lookup e.cacheId) : Whole s₀ s w e := by
    obtain ⟨node, hnode, -, hsize, hstored⟩ := hexact.stored e he
    exact ⟨node, by rw [hshelf.contents_eq, hl, hnode], hstored, hsize⟩
  have hhit {reopened : Cache} (hdir : reopened.directory = s.cache.directory)
      (hstays : ∀ e ∈ reopened.store.records, e ∉ s.cache.evicted → Whole s₀ s w e) (signature path)
      (cache' : Cache) (w' : World)
      (hx : reopened.lookupSignature signature w = (.ok (some path, cache'), w')) :
      ∃ e ∈ reopened.store.records, e.signature = signature ∧ path = s.cache.artifact e ∧
        (e ∈ s.cache.evicted ∨ Whole s₀ s w e) := by
    obtain ⟨e, ⟨-, hget, -⟩, rfl⟩ := finds_of_lookupSignature hx
    obtain ⟨he, rfl⟩ := Records.mem_of_get? hget
    exact ⟨e, he, rfl, by rw [artifact, artifact, hdir], or_iff_not_imp_left.mpr (hstays e he)⟩
  rcases hleft with hthin | hspared
  · obtain ⟨reopened, hload, hrecords, hdir, hevict⟩ := hshelf.reopen hthin.spared hconsistent.filed
      hids hconsistent.distinct hf
    have hstays : ∀ e ∈ reopened.store.records, e ∉ s.cache.evicted → Whole s₀ s w e := by
      rw [hrecords]
      exact fun e he hgoes => hwhole e he (hthin.staying e he hgoes)
    exact ⟨reopened, hload, .inl hrecords, hstays, hhit hdir hstays, hevict⟩
  · have hkept : ∀ e ∈ s.cache.afterEviction.store.records, e ∈ s.cache.store.records := fun e he =>
      (Records.mem_erase.mp he).1
    obtain ⟨reopened, hload, hrecords, hdir, hevict⟩ := hshelf.reopen
      (hspared.relative hspared.artifacts) (fun e he => hconsistent.filed e (hkept e he))
      (hids.sublist (List.filter_sublist.map _)) (Records.nodup_erase hconsistent.distinct _)
      fun e he => hf e (hkept e he)
    have hstays : ∀ e ∈ reopened.store.records, e ∉ s.cache.evicted → Whole s₀ s w e := by
      rw [hrecords]
      exact fun e he _ => hwhole e (hkept e he) (hspared.artifacts e he)
    exact ⟨reopened, hload, .inr hrecords, hstays, hhit hdir hstays, hevict⟩

/-- A cache of one record, of a folder of two files, that is to keep nothing. -/
def packed : Cache where
  settings := ⟨true, "/W/c", 0, 30⟩
  store := ⟨"/W/c", [⟨"s", "a", .at 1767225600000, "/W/a.py", "", 2⟩]⟩

def parcel : World := .start (.folder [("W", .folder [("c", .folder
  [("a", .folder [("x", .file [1] ⟨0, 0⟩), ("y", .file [2] ⟨0, 0⟩)])])])])

/-- Stopped within the removal of a folder, an eviction leaves a part of it, which is found. -/
theorem evict_interrupted_packed :
    ∃ root, (packed.evict (parcel.stopAfter 1)).2.root = root ∧
      (packed.lookupSignature "s" (.start root)).1.toOption.map (·.1) = some (some "/W/c/a") ∧
      (exists? "/W/c/a/x" (.start root)).1.toOption = some false ∧
      (exists? "/W/c/a/y" (.start root)).1.toOption = some true := by
  have hsorted : packed.store.records.oldestFirst = packed.store.records :=
    List.mergeSort_singleton _
  refine ⟨_, rfl, ?_⟩
  rw [evict, hsorted]
  decide +kernel

end ScriptPack.Cache

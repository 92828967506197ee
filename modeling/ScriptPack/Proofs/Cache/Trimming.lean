import Mathlib.Algebra.Order.BigOperators.Group.List
import ScriptPack.Proofs.Cache.Ageing
import ScriptPack.Proofs.Cache.Grounds

/-!
Eviction in any folder. If the records add up to more than the limit, the shortest row of the oldest
ones without which they are within the target goes, with its artifacts; of the rest of the folder,
the artifacts of the other records stay, and what belongs to the document.
-/

namespace ScriptPack.Cache

open Effect Node Lookup Files

variable {cache : Cache} {w w' : World} {size : Entry → Nat} {limit : Rat}

theorem Open.writable_of_commit {loc : Location} {entries : List (String × Node)} {store : Store}
    {next : Records} (h : Open store.root loc entries w)
    (hd : ∀ target, entries.lookup (draftName w.processId) ≠ some (.link target))
    (hnext : ∀ e ∈ next, e.storedAt ≠ .invalid)
    (hw : ∃ store' w', store.commit next w = (.ok store', w')) : Writable w.processId entries := by
  obtain ⟨store', w', hw⟩ := hw
  by_contra hno
  obtain ⟨text, ht⟩ := Document.serialize_of_dated hnext
  obtain ⟨failure, entries', ⟨w₁, hf, -⟩, -⟩ := commit_unwritable h hno hd ht
  cases hf.symm.trans hw

/-- What eviction leaves of the entries of a folder. -/
structure Trims (cache : Cache) (processId : String) (stamp : Stamp)
    (entries entries' : List (String × Node)) : Prop where
  artifacts : ∀ name, isDocumentName name = false →
    entries'.lookup name = if cache.spares name then entries.lookup name else none
  untouched : cache.evicted = [] → ∀ name, isDocumentName name = true →
    entries'.lookup name = entries.lookup name
  rewritten : cache.evicted ≠ [] → ∃ text,
    Document.serialize cache.afterEviction.store.records = .ok text ∧
      entries'.lookup documentName = some (.file (Text.Utf8.encode text) stamp)

theorem evict_trims (h : Grounded cache.directory w) (hroot : cache.store.root = cache.directory)
    (hid : ∀ e ∈ cache.store.records, IsName e.cacheId)
    (hdoc : ∀ e ∈ cache.store.records, isDocumentName e.cacheId = false)
    (hdated : ∀ e ∈ cache.store.records, e.storedAt ≠ .invalid)
    (hr : ∀ e ∈ cache.evicted, (removePath (cache.artifact e) w).1 = .ok true)
    (hw : cache.evicted ≠ [] →
      ∃ store w', cache.store.commit cache.afterEviction.store.records w = (.ok store, w')) :
    ∃ w', cache.evict w = (.ok (cache.evicted.length, cache.afterEviction), w') ∧
      Trims cache w.processId w.stamp (contents cache.directory w) (contents cache.directory w') := by
  have hwritten {entries : List (String × Node)} {text : String}
      (hwf : WellFormed (.folder entries)) (hne : cache.evicted ≠ [])
      (ht : Document.serialize cache.afterEviction.store.records = .ok text) :
      Trims cache w.processId w.stamp entries
        (written w.processId (Text.Utf8.encode text) w.stamp (cache.remaining entries)) := by
    have hwf' : WellFormed (.folder (cache.remaining entries)) := wellFormed_remaining hwf
    refine ⟨fun name hn => ?_, fun hnone => absurd hnone hne, fun _ =>
      ⟨text, ht, lookup_written_document hwf'⟩⟩
    rw [lookup_written hwf' (ne_documentName hn) (ne_draftName hn _), lookup_remaining]
  rcases h.cases with ⟨loc, entries, ho, hd⟩ | hclosed
  · rw [ho.contents_eq]
    have hwritable (hne : cache.evicted ≠ []) : Writable w.processId entries :=
      (hroot.symm ▸ ho : Open cache.store.root loc entries w).writable_of_commit hd
        (fun e he => hdated e (Records.mem_erase.mp he).1) (hw hne)
    rcases evict_writable hroot ho hid hdoc hdated hwritable with
      ⟨hnone, w', hx, he⟩ | ⟨hne, text, ht, w', hx, he⟩
    · have ho' := ho.put (wellFormed_remaining ho.wellFormed) he
      refine ⟨w', ?_, ?_⟩
      · rw [afterEviction_of_none hnone, hnone]
        exact hx
      · rw [ho'.contents_eq]
        exact ⟨fun name _ => lookup_remaining name, fun _ name hn => lookup_remaining_document hdoc hn,
          fun hne => absurd hnone hne⟩
    · have ho' := ho.put (wellFormed_written (wellFormed_remaining ho.wellFormed)) he
      refine ⟨w', hx, ?_⟩
      rw [ho'.contents_eq]
      exact hwritten ho.wellFormed hne ht
  · rw [hclosed.contents_eq]
    rcases evict_closed hclosed hroot hid hdated hr hw with
      ⟨hnone, w', hx, he⟩ | ⟨hne, text, loc, w', ht, hx, ho'⟩
    · refine ⟨w', ?_, ?_⟩
      · rw [afterEviction_of_none hnone, hnone]
        exact hx
      · rw [(hclosed.same he).contents_eq]
        exact ⟨fun name _ => by split <;> rfl, fun _ name _ => rfl, fun hne => absurd hnone hne⟩
    · refine ⟨w', hx, ?_⟩
      rw [ho'.contents_eq]
      exact hwritten wellFormed_empty hne ht

theorem exists_of_spares {name : String} (h : cache.spares name = true)
    (hn : isDocumentName name = false) :
    ∃ e ∈ cache.store.records, e ∉ cache.evicted ∧ e.cacheId = name := by
  simp only [spares, keeps, hn, Bool.false_or, Bool.and_eq_true, List.any_eq_true, beq_iff_eq,
    Bool.not_eq_true', List.contains_eq_mem, decide_eq_false_iff_not] at h
  obtain ⟨⟨e, he, rfl⟩, hne⟩ := h
  exact ⟨e, he, fun he' => hne (List.mem_map_of_mem he'), rfl⟩

/-- The records that eviction drops are the first ones of the sorted records. -/
theorem evicted_shortest (hdated : ∀ e ∈ cache.store.records, e.storedAt ≠ .invalid)
    (hsize : ∀ e ∈ cache.store.records, e.sizeBytes = .ofNat (size e))
    (hsum : (cache.store.records.map size).sum < 2 ^ 53)
    (hlimit : cache.settings.maxSizeMB = .finite limit) (hpos : 0 ≤ limit) :
    ∃ k, cache.evicted = cache.store.records.oldestFirst.take k ∧
      (if Number.atMost (.ofNat (cache.store.records.map size).sum) cache.maxBytes then k = 0
        else 0 < k ∧ Records.Shortest size (cache.maxBytes * evictionTarget)
          cache.store.records.oldestFirst k) ∧
      Number.atMost (.ofNat ((cache.store.records.oldestFirst.drop k).map size).sum)
        cache.maxBytes = true := by
  have hperm := (Records.oldestFirst_sorts hdated).perm
  have htotal := Records.totalBytes_of_sizes hsize hsum.le
  rw [← (hperm.map size).sum_eq] at hsum htotal ⊢
  by_cases hfull : Number.atMost (.ofNat (cache.store.records.oldestFirst.map size).sum)
      cache.maxBytes = true
  · refine ⟨0, ?_, by rw [if_pos hfull], hfull⟩
    rw [evicted, htotal]
    exact if_pos hfull
  · have hfinite : (Number.ofNat (cache.store.records.oldestFirst.map size).sum).isFinite = true := by
      rw [Number.ofNat_of_le hsum.le]
      rfl
    obtain ⟨hzero, hbelow⟩ := target_of_over hlimit hpos hfinite (Bool.eq_false_iff.mpr hfull)
    obtain ⟨k, hk, hshort⟩ := victims_shortest (fun e he => hsize e (hperm.mem_iff.mp he)) hsum.le
      hzero
    have hleft : ((cache.store.records.oldestFirst.drop k).map size).sum ≤ 2 ^ 53 :=
      (((List.drop_sublist k _).map size).sum_le_sum fun _ _ => Nat.zero_le _).trans hsum.le
    refine ⟨k, ?_, ?_, hbelow _ hleft hshort.within⟩
    · rw [evicted, htotal]
      exact (if_neg hfull).trans hk
    · rw [if_neg hfull]
      refine ⟨Nat.pos_of_ne_zero ?_, hshort⟩
      rintro rfl
      exact hfull (hbelow _ hleft hshort.within)

/-- Eviction removes nothing from a cache that is within its limit. From one that is not, it removes
the shortest row of the oldest entries without which the rest is within the target, and the document
is then that of the entries which are left. These keep their order and their artifacts, and beside
the artifacts only the document and what is named after it is left of the folder. -/
theorem evict_shortest (h : Grounded cache.directory w) (hroot : cache.store.root = cache.directory)
    (hid : ∀ e ∈ cache.store.records, IsName e.cacheId)
    (hdoc : ∀ e ∈ cache.store.records, isDocumentName e.cacheId = false)
    (hids : (cache.store.records.map (·.cacheId)).Nodup)
    (hsignatures : (cache.store.records.map (·.signature)).Nodup)
    (hdated : ∀ e ∈ cache.store.records, e.storedAt ≠ .invalid)
    (hsize : ∀ e ∈ cache.store.records, e.sizeBytes = .ofNat (size e))
    (hsum : (cache.store.records.map size).sum < 2 ^ 53)
    (hlimit : cache.settings.maxSizeMB = .finite limit) (hpos : 0 ≤ limit)
    (hr : ∀ e ∈ cache.evicted, (removePath (cache.artifact e) w).1 = .ok true)
    (hw : cache.evicted ≠ [] →
      ∃ store w', cache.store.commit cache.afterEviction.store.records w = (.ok store, w')) :
    ∃ oldest k, ∃ kept : Records, ∃ w', Records.Sorts cache.store.records oldest ∧
      (if Number.atMost (.ofNat (cache.store.records.map size).sum) cache.maxBytes then k = 0
        else 0 < k ∧ Records.Shortest size (cache.maxBytes * evictionTarget) oldest k) ∧
      (kept = cache.store.records.filter fun e => !(oldest.take k).contains e) ∧
      cache.evict w = (.ok (k, cache.withRecords kept), w') ∧
      Number.atMost kept.totalBytes cache.maxBytes = true ∧
      (∀ e ∈ kept, (contents cache.directory w').lookup e.cacheId =
        (contents cache.directory w).lookup e.cacheId) ∧
      (∀ name node, (contents cache.directory w').lookup name = some node →
        isDocumentName name = true ∨ ∃ e ∈ kept, e.cacheId = name) ∧
      (k = 0 → ∀ name, isDocumentName name = true →
        (contents cache.directory w').lookup name = (contents cache.directory w).lookup name) ∧
      (0 < k → ∃ text, Document.serialize kept = .ok text ∧
        (contents cache.directory w').lookup documentName =
          some (.file (Text.Utf8.encode text) w.stamp)) := by
  obtain ⟨k, hk, hshort, hwithin⟩ := evicted_shortest hdated hsize hsum hlimit hpos
  have hsorts := Records.oldestFirst_sorts hdated
  have hlength : cache.evicted.length = k := by
    rw [hk, List.length_take, Nat.min_eq_left]
    split at hshort
    · omega
    · exact hshort.2.le
  have hafter : cache.afterEviction = cache.withRecords
      (cache.store.records.filter fun e => !(cache.evicted).contains e) := by
    rw [afterEviction, Records.erase_signatures hsignatures fun e => mem_records_of_mem_evicted]
  have hnone : cache.evicted = [] ↔ k = 0 := by rw [← List.length_eq_zero_iff, hlength]
  obtain ⟨w', hx, htrims⟩ := evict_trims h hroot hid hdoc hdated hr hw
  rw [hlength, hafter] at hx
  refine ⟨_, k, _, w', hsorts, hshort, rfl, hk ▸ hx, ?_, fun e he => ?_, fun name node hl => ?_,
    fun hzero => htrims.untouched (hnone.mpr hzero), fun hone => ?_⟩
  · have hdrop := hsorts.perm_drop hsignatures k
    rw [Records.totalBytes_of_sizes fun e he => hsize e (List.mem_of_mem_filter he),
      ← (hdrop.map size).sum_eq]
    · exact hwithin
    · exact ((List.filter_sublist.map size).sum_le_sum fun _ _ => Nat.zero_le _).trans hsum.le
  · rw [← hk, List.mem_filter] at he
    rw [htrims.artifacts _ (hdoc e he.1), if_pos (spares_of_mem hids he.1 (by simpa using he.2))]
  · by_cases hn : isDocumentName name = true
    · exact .inl hn
    · rw [htrims.artifacts name (by simpa using hn)] at hl
      split at hl
      · rename_i hs
        obtain ⟨e, he, hne, rfl⟩ := exists_of_spares hs (by simpa using hn)
        rw [← hk]
        exact .inr ⟨e, List.mem_filter.mpr ⟨he, by simpa using hne⟩, rfl⟩
      · cases hl
  · obtain ⟨text, ht, hl⟩ := htrims.rewritten (mt hnone.mp (by omega))
    rw [hafter] at ht
    exact ⟨text, hk ▸ ht, hl⟩

/-- Two records of three bytes each, in a cache that keeps four. -/
def overfull : Cache where
  settings := ⟨true, "/W/c", .finite (4 / 1048576), 30⟩
  store := ⟨"/W/c", [⟨"s", "a", .at 1, "/W/a.py", "", 3⟩, ⟨"t", "b", .at 2, "/W/a.py", "", 3⟩]⟩

/-- The folder of that cache: its artifacts, a draft of the document and a stray folder. -/
def litter (draft : Node) : List (String × Node) :=
  [("a", .file [1, 1, 1] ⟨0, 0⟩), ("b", .file [2, 2, 2] ⟨0, 0⟩),
    ("cache_metadata.json.1.tmp", draft), ("d", .folder [("e", .file [] ⟨0, 0⟩)])]

def littered (draft : Node) : World :=
  .start (.folder [("W", .folder [("c", .folder (litter draft))])])

theorem overfull_oldestFirst :
    overfull.store.records.oldestFirst = overfull.store.records :=
  List.mergeSort_of_pairwise (by decide +kernel)

theorem overfull_evicted : overfull.evicted = [⟨"s", "a", .at 1, "/W/a.py", "", 3⟩] := by
  rw [evicted, overfull_oldestFirst]
  decide +kernel

theorem evict_shortest_overfull :
    overfull.evicted = [⟨"s", "a", .at 1, "/W/a.py", "", 3⟩] ∧
      ∃ k kept w', overfull.evict (littered (.file [] ⟨0, 0⟩)) =
        (.ok (k, overfull.withRecords kept), w') ∧ 0 < k ∧
        (∀ e ∈ kept, (contents "/W/c" w').lookup e.cacheId =
          (contents "/W/c" (littered (.file [] ⟨0, 0⟩))).lookup e.cacheId) := by
  have hnames : Path.names "/W/c" = ["W", "c"] := by decide +kernel
  have ho : Open "/W/c" ["W", "c"] (litter (.file [] ⟨0, 0⟩)) (littered (.file [] ⟨0, 0⟩)) := by
    rw [← hnames]
    exact .of_at? (World.start_running (by decide) ⟨_, rfl⟩)
      ((Path.resolve_isNormal "/" "/W/c").resolve_left (by decide)) (by rw [hnames]; rfl)
  have hdraft : (litter (.file [] ⟨0, 0⟩)).lookup (draftName "1") = some (.file [] ⟨0, 0⟩) := by
    decide +kernel
  have hdocument : (litter (.file [] ⟨0, 0⟩)).lookup documentName = none := by decide +kernel
  have hdated : ∀ e ∈ overfull.store.records, e.storedAt ≠ .invalid := by decide +kernel
  have hwrite : ∃ store w', overfull.store.commit overfull.afterEviction.store.records
      (littered (.file [] ⟨0, 0⟩)) = (.ok store, w') := by
    obtain ⟨text, ht⟩ := Document.serialize_of_dated fun e he => hdated e (Records.mem_erase.mp he).1
    have hwritable : Writable "1" (litter (.file [] ⟨0, 0⟩)) :=
      ⟨fun node hl => (nomatch hdocument.symm.trans hl), fun node hl => by
        cases hdraft.symm.trans hl
        rfl⟩
    have hstore : Open overfull.store.root ["W", "c"] (litter (.file [] ⟨0, 0⟩))
        (littered (.file [] ⟨0, 0⟩)) := ho
    obtain ⟨w', hx, -⟩ := commit_writable hstore hwritable ht
    exact ⟨_, w', hx⟩
  have hground : Grounded overfull.directory (littered (.file [] ⟨0, 0⟩)) :=
    .of_open ho fun target hl => nomatch hdraft.symm.trans hl
  have hsize : ∀ e ∈ overfull.store.records, e.sizeBytes = .ofNat 3 := by decide +kernel
  have hlimit : overfull.settings.maxSizeMB = .finite (4 / 1048576) := rfl
  obtain ⟨oldest, k, kept, w', -, hk, -, hx, -, hkept, -⟩ :=
    evict_shortest hground rfl (by decide +kernel) (by decide +kernel) (by decide +kernel)
      (by decide +kernel) hdated hsize (by decide +kernel) hlimit (by norm_num)
      (by rw [overfull_evicted]; decide +kernel) fun _ => hwrite
  rw [if_neg (by decide +kernel)] at hk
  exact ⟨overfull_evicted, k, kept, w', hx, hk.1, hkept⟩

/-- A cache of the same two records with room enough, whose path leads through a link of its folder. -/
def looped : Cache where
  settings := ⟨true, "/W/c/x", 1, 30⟩
  store := ⟨"/W/c/x", overfull.store.records⟩

def loop : World := .start (.folder [("W", .folder [("c", .folder
  [("a", .file [1, 1, 1] ⟨0, 0⟩), ("b", .file [2, 2, 2] ⟨0, 0⟩), ("x", .link "/W/c")])])])

/-- A draft that is a link to an artifact is written through, so that the artifact of a record that
stays is lost; and a link by which the path leads to its folder is swept as a stray entry, so that
no artifact is found any more. -/
theorem evict_loses_artifacts :
    ((overfull.evict (littered (.link "b"))).1.toOption.map (fun r => (r.1, r.2.store.records)) =
        some (1, [⟨"t", "b", .at 2, "/W/a.py", "", 3⟩]) ∧
      (Files.read "/W/c/b" (littered (.link "b"))).1.toOption = some [2, 2, 2] ∧
      (Files.read "/W/c/b" (overfull.evict (littered (.link "b"))).2).1.toOption ≠
        some [2, 2, 2]) ∧
    (looped.evict loop).1.toOption.map (fun r => (r.1, r.2.store.records)) =
        some (0, looped.store.records) ∧
      (Files.read "/W/c/x/b" loop).1.toOption = some [2, 2, 2] ∧
      (Files.read "/W/c/x/b" (looped.evict loop).2).1.toOption = none := by
  have hsorted : looped.store.records.oldestFirst = looped.store.records := overfull_oldestFirst
  unfold evict
  rw [overfull_oldestFirst, hsorted]
  decide +kernel

end ScriptPack.Cache

import Mathlib.Data.List.Nodup
import ScriptPack.Proofs.Cache.Records
import ScriptPack.Proofs.Cache.Shelf

/-!
The records of a cache beside the entries of its folder. The two are consistent if the document
lists the records and every record is one that the cache could have made. In a folder that several
caches share, the document may list other records than those of one of them.
-/

namespace ScriptPack

open Effect Node Lookup

namespace Document

theorem iso?_eq_none_iff {time : Timestamp} : time.iso? = none ↔ time = .invalid := by
  cases time with
  | invalid => exact ⟨fun _ => rfl, fun _ => rfl⟩
  | «at» ms => exact ⟨nofun, nofun⟩

theorem foldlM_addRecord {records : Records} (h : ∀ e ∈ records, e.storedAt ≠ .invalid)
    (fields : Fields Json) : ∃ fields', records.foldlM addRecord fields = .ok fields' := by
  induction records generalizing fields with
  | nil => exact ⟨fields, rfl⟩
  | cons e rest ih =>
      obtain ⟨time, ht⟩ := Option.ne_none_iff_exists'.mp
        (mt iso?_eq_none_iff.mp (h e List.mem_cons_self))
      obtain ⟨next, hnext⟩ : ∃ next, addRecord fields e = .ok next := by
        rw [addRecord, ht]
        exact ⟨_, rfl⟩
      obtain ⟨fields', hf⟩ := ih (fun e he => h e (List.mem_cons_of_mem _ he)) next
      refine ⟨fields', ?_⟩
      rw [List.foldlM_cons, hnext]
      exact hf

/-- Records with times can be written. -/
theorem serialize_of_dated {records : Records} (h : ∀ e ∈ records, e.storedAt ≠ .invalid) :
    ∃ text, serialize records = .ok text := by
  obtain ⟨fields, hf⟩ := foldlM_addRecord h []
  refine ⟨(Json.object fields).indented ++ "\n", ?_⟩
  rw [serialize, hf]
  rfl

theorem dated_of_foldlM {records : Records} {fields fields' : Fields Json}
    (h : records.foldlM addRecord fields = .ok fields') : ∀ e ∈ records, e.storedAt ≠ .invalid := by
  induction records generalizing fields with
  | nil => nofun
  | cons e rest ih =>
      rw [List.foldlM_cons] at h
      cases ha : addRecord fields e with
      | error failure =>
          rw [ha] at h
          cases h
      | ok next =>
          rw [ha] at h
          intro e' he'
          rcases List.mem_cons.mp he' with rfl | he'
          · intro hinvalid
            rw [addRecord, iso?_eq_none_iff.mpr hinvalid] at ha
            cases ha
          · exact ih h e' he'

theorem dated_of_serialize {records : Records} {text : String}
    (h : serialize records = .ok text) : ∀ e ∈ records, e.storedAt ≠ .invalid := by
  cases hf : records.foldlM addRecord [] with
  | error failure =>
      rw [serialize, hf] at h
      cases h
  | ok fields => exact dated_of_foldlM hf

end Document

namespace Records

variable {records : Records} {entry e : Entry} {signature : String} {signatures : List String}

theorem mem_of_get? (h : records.get? signature = some e) :
    e ∈ records ∧ e.signature = signature := by
  rw [get?, List.find?_eq_some_iff_append] at h
  obtain ⟨hs, before, after, rfl, -⟩ := h
  exact ⟨by simp, by simpa using hs⟩

theorem get?_of_mem (hd : (records.map (·.signature)).Nodup) (h : e ∈ records) :
    records.get? e.signature = some e := by
  cases hg : records.get? e.signature with
  | none =>
      rw [get?, List.find?_eq_none] at hg
      exact absurd (by simp) (hg e h)
  | some known =>
      obtain ⟨hmem, hs⟩ := mem_of_get? hg
      exact congrArg some (List.inj_on_of_nodup_map hd hmem h hs)

theorem mem_replace (h : e ∈ replace records entry) :
    e = entry ∨ (e ∈ records ∧ e.signature ≠ entry.signature) := by
  obtain ⟨known, hk, rfl⟩ := List.mem_map.mp h
  by_cases hs : known.signature = entry.signature
  · left
    rw [if_pos (by simpa using hs)]
  · right
    rw [if_neg (by simpa using hs)]
    exact ⟨hk, hs⟩

theorem mem_set (h : e ∈ records.set entry) :
    e = entry ∨ (e ∈ records ∧ e.signature ≠ entry.signature) := by
  by_cases hm : entry.signature ∈ records.map (·.signature)
  · rw [set_of_mem hm] at h
    exact mem_replace h
  · rw [set_of_not_mem hm, List.mem_append, List.mem_singleton] at h
    rcases h with h | h
    · exact .inr ⟨h, fun hs => hm (hs ▸ List.mem_map_of_mem h)⟩
    · exact .inl h

theorem self_mem_set (records : Records) (entry : Entry) : entry ∈ records.set entry := by
  by_cases hm : entry.signature ∈ records.map (·.signature)
  · rw [set_of_mem hm]
    obtain ⟨known, hk, hs⟩ := List.mem_map.mp hm
    exact List.mem_map.mpr ⟨known, hk, if_pos (by simpa using hs)⟩
  · rw [set_of_not_mem hm]
    simp

theorem nodup_set (h : (records.map (·.signature)).Nodup) (entry : Entry) :
    ((records.set entry).map (·.signature)).Nodup := by
  by_cases hm : entry.signature ∈ records.map (·.signature)
  · rw [set_of_mem hm, signatures_replace]
    exact h
  · rw [set_of_not_mem hm, List.map_append, List.nodup_append]
    refine ⟨h, by simp, fun s hs t ht => ?_⟩
    rw [List.map_singleton, List.mem_singleton] at ht
    rintro rfl
    exact hm (ht ▸ hs)

theorem mem_erase : e ∈ records.erase signatures ↔ e ∈ records ∧ e.signature ∉ signatures := by
  simp [erase, List.mem_filter]

theorem nodup_erase (h : (records.map (·.signature)).Nodup) (signatures : List String) :
    ((records.erase signatures).map (·.signature)).Nodup :=
  h.sublist ((List.filter_sublist).map _)

theorem erase_nil (records : Records) : records.erase [] = records := by
  simp [erase]

end Records

namespace Cache

variable {entries entries' : List (String × Node)} {records : Records} {name : String}
  {node : Node} {shared shared' : Bool}

/-- The cache with other records. -/
def withRecords (cache : Cache) (records : Records) : Cache :=
  { cache with store := { cache.store with records } }

/-- An entry as the cache makes it. -/
structure Filed (e : Entry) : Prop where
  digest : Signature.IsDigest e.signature
  dated : e.storedAt ≠ .invalid
  id : ∃ now n, e.storedAt = .ofNumber now ∧ e.cacheId = numberedId (baseId e.signature now) n
  size : ∃ n, e.sizeBytes = .ofNat n

theorem Filed.isId {e : Entry} (h : Filed e) : IsId e.cacheId := by
  obtain ⟨now, n, -, hid⟩ := h.id
  rw [hid]
  exact (isId_baseId h.digest now).numbered n

/-- The document is missing and there are no records, or it is the text of the records. -/
def InSync (entries : List (String × Node)) (records : Records) : Prop :=
  (entries.lookup documentName = none ∧ records = []) ∨
    ∃ text stamp, Document.serialize records = .ok text ∧
      entries.lookup documentName = some (.file (Text.Utf8.encode text) stamp)

/-- What a document lists beside the records of a cache. They are the same unless the folder is
shared; once it is, the document is there. -/
structure Listed (shared : Bool) (entries : List (String × Node)) (records known : Records) :
    Prop where
  inSync : InSync entries known
  filed : ∀ e ∈ known, Filed e
  distinct : (known.map (·.signature)).Nodup
  own : shared = false → known = records
  present : shared = true → entries.lookup documentName ≠ none

structure Consistent (shared : Bool) (entries : List (String × Node)) (records : Records) :
    Prop where
  sync : ∃ known, Listed shared entries records known
  names : ∀ name node, entries.lookup name = some node → name = documentName ∨ IsId name
  filed : ∀ e ∈ records, Filed e
  distinct : (records.map (·.signature)).Nodup

namespace Consistent

theorem empty : Consistent false [] [] :=
  ⟨⟨[], .inl ⟨rfl, rfl⟩, nofun, List.nodup_nil, fun _ => rfl, nofun⟩, nofun, nofun, List.nodup_nil⟩

/-- A cache that has its folder for itself has its records in the document. -/
theorem inSync (h : Consistent false entries records) : InSync entries records := by
  obtain ⟨known, hk⟩ := h.sync
  rw [← hk.own rfl]
  exact hk.inSync

theorem tidy (h : Consistent shared entries records) : Tidy entries := by
  obtain ⟨known, hk⟩ := h.sync
  refine ⟨fun node hl => ?_, fun name node hl hdoc => ?_⟩
  · rcases hk.inSync with ⟨hnone, -⟩ | ⟨text, stamp, -, hfile⟩
    · cases hnone.symm.trans hl
    · cases hfile.symm.trans hl
      rfl
  · refine (h.names name node hl).resolve_right fun hid => ?_
    exact absurd hdoc (by simp [hid.not_document])

/-- There are no partial copies. -/
theorem partial_free (h : Consistent shared entries records) (hid : IsId name) :
    entries.lookup (partialName name) = none := by
  rw [Option.eq_none_iff_forall_ne_some]
  intro node hl
  rcases h.names _ node hl with hdoc | hid'
  · exact ne_documentName hid.partial_not_document hdoc
  · exact hid'.ne_partial name rfl

theorem serialize (h : Consistent shared entries records) :
    ∃ text, Document.serialize records = .ok text :=
  Document.serialize_of_dated fun e he => (h.filed e he).dated

/-- Other entries than the document do not matter, as long as they have names for artifacts. -/
theorem congr (h : Consistent shared entries records)
    (hdoc : entries'.lookup documentName = entries.lookup documentName)
    (hnames : ∀ name node, entries'.lookup name = some node →
      name = documentName ∨ IsId name) : Consistent shared entries' records := by
  obtain ⟨known, hk⟩ := h.sync
  refine ⟨⟨known, ?_, hk.filed, hk.distinct, hk.own, ?_⟩, hnames, h.filed, h.distinct⟩
  · rw [InSync, hdoc]
    exact hk.inSync
  · rw [hdoc]
    exact hk.present

theorem setEntry (h : Consistent shared entries records) (hs : Sorted entries) (hid : IsId name)
    (node : Node) : Consistent shared (setEntry name node entries) records := by
  refine h.congr ?_ fun other node hl => ?_
  · rw [lookup_setEntry hs, if_neg (ne_documentName hid.not_document).symm]
  · rw [lookup_setEntry hs] at hl
    split at hl
    · rename_i heq
      exact .inr (heq ▸ hid)
    · exact h.names other node hl

theorem eraseEntry (h : Consistent shared entries records) (hs : Sorted entries) (hid : IsId name) :
    Consistent shared (eraseEntry name entries) records := by
  refine h.congr ?_ fun other node hl => ?_
  · rw [lookup_eraseEntry hs, if_neg (ne_documentName hid.not_document).symm]
  · rw [lookup_eraseEntry hs] at hl
    split at hl
    · cases hl
    · exact h.names other node hl

/-- Entries are left out, but not the document. -/
theorem filter (h : Consistent shared entries records) (keep : String → Bool)
    (hk : keep documentName = true) : Consistent shared (entries.filter (keep ·.1)) records := by
  refine h.congr ?_ fun other node hl => ?_
  · rw [lookup_filter, if_pos hk]
  · rw [lookup_filter] at hl
    split at hl
    · exact h.names other node hl
    · cases hl

/-- A new document for new records. -/
theorem commit (h : Consistent shared entries records) (hs : Sorted entries) {next : Records}
    {text : String} (ht : Document.serialize next = .ok text) (hf : ∀ e ∈ next, Filed e)
    (hd : (next.map (·.signature)).Nodup) (stamp : Stamp) :
    Consistent shared' (Node.setEntry documentName (.file (Text.Utf8.encode text) stamp) entries)
      next := by
  have hdoc : (Node.setEntry documentName (.file (Text.Utf8.encode text) stamp) entries).lookup
      documentName = some (.file (Text.Utf8.encode text) stamp) := by
    rw [lookup_setEntry hs, if_pos rfl]
  refine ⟨⟨next, .inr ⟨text, stamp, ht, hdoc⟩, hf, hd, fun _ => rfl, fun _ => by simp [hdoc]⟩,
    fun name node hl => ?_, hf, hd⟩
  rw [lookup_setEntry hs] at hl
  split at hl
  · rename_i heq
    exact .inl heq
  · exact h.names name node hl

end Consistent

theorem erase_eq_self {signatures : List String}
    (h : ∀ signature ∈ signatures, signature ∉ records.view.keys) :
    records.erase signatures = records := by
  rw [Records.erase, List.filter_eq_self]
  intro e he
  simpa using fun hs => h e.signature hs (List.mem_map_of_mem he)

/-- Dropping records changes nothing but the document. -/
theorem deleteMany_open {store : Store} {loc : Location} {w : World}
    (h : Open store.root loc entries w) (hc : Consistent shared entries store.records)
    (signatures : List String) :
    ∃ entries', Does (store.deleteMany signatures) w
        { store with records := store.records.erase signatures }
        (put loc (.folder entries') w.root) ∧
      WellFormed (.folder entries') ∧
      Consistent shared entries' (store.records.erase signatures) ∧ ∀ name, name ≠ documentName → entries'.lookup name = entries.lookup name := by
  by_cases hidle : ∀ signature ∈ signatures, signature ∉ store.records.view.keys
  · refine ⟨entries, ?_, h.wellFormed, ?_, fun _ _ => rfl⟩
    · rw [erase_eq_self hidle]
      exact h.does_same (does_of_eq (Store.deleteMany_idle hidle))
    · rw [erase_eq_self hidle]
      exact hc
  · have hfiled : ∀ e ∈ store.records.erase signatures, Filed e := fun e he =>
      hc.filed e (Records.mem_erase.mp he).1
    obtain ⟨text, ht⟩ := Document.serialize_of_dated fun e he => (hfiled e he).dated
    have hsorted := h.wellFormed.sorted
    refine ⟨_, ?_, h.wellFormed.setEntry isName_documentName (.file _ _),
      hc.commit hsorted ht hfiled (Records.nodup_erase hc.distinct _) w.stamp, fun name hn => ?_⟩
    · rw [Store.deleteMany_commit hidle]
      exact commit_open h hc.tidy ht
    · rw [lookup_setEntry hsorted, if_neg hn]

/-- The folder of a cache has the given entries, and its document lists the records. -/
structure Stands (shared : Bool) (cache : Cache) (entries : List (String × Node)) (w : World) :
    Prop where
  root_eq : cache.store.root = cache.directory
  shelf : Shelf cache.directory entries w
  consistent : Consistent shared entries cache.store.records

theorem Stands.same {cache : Cache} {w w' : World} (h : Stands shared cache entries w)
    (he : w.Evolves w.root w') : Stands shared cache entries w' :=
  ⟨h.root_eq, h.shelf.same he, h.consistent⟩

/-- As long as the folder is missing, there are no records. -/
theorem Stands.records_eq_nil {cache : Cache} {w : World} (h : Stands shared cache [] w) :
    cache.store.records = [] := by
  obtain ⟨known, hk⟩ := h.consistent.sync
  cases shared with
  | true => exact absurd rfl (hk.present rfl)
  | false =>
      rw [← hk.own rfl]
      rcases hk.inSync with ⟨-, hnone⟩ | ⟨text, stamp, -, hdoc⟩
      · exact hnone
      · cases hdoc

end Cache

end ScriptPack

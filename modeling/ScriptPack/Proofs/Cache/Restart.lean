import ScriptPack.Proofs.Cache.ReadBack
import ScriptPack.Proofs.Cache.Run

/-!
Opening a cache again. The document of a folder gives the records that it lists, so that after any
run a cache that is opened on the folder with the same settings is the cache of the run, and does
from there on what that would do.
-/

namespace ScriptPack.Cache

open Effect Node Lookup Files

variable {cache : Cache} {dir : String} {w : World} {entries : List (String × Node)}
  {records : Records}

/-- A document gives the records that it lists. -/
theorem Shelf.load (h : Shelf dir entries w) (hs : InSync entries records)
    (hr : ∀ e ∈ records, Document.Restorable e) (hd : (records.map (·.signature)).Nodup) :
    Store.load dir w = (.ok ⟨dir, records.map Document.restored⟩, w) := by
  -- Without a document there are no records.
  have habsent (hnone : exists? (documentPath dir) w = (.ok false, w)) :
      Store.load dir w = (.ok ⟨dir, []⟩, w) := by
    rw [Store.load, bind_ok hnone]
    rfl
  rcases h with ⟨hm, rfl⟩ | ⟨loc, ho⟩
  · rcases hs with ⟨-, rfl⟩ | ⟨text, stamp, -, hdoc⟩
    · refine habsent ?_
      rw [documentPath_eq hm.normal]
      exact hm.closed.exists?_child isStep_documentName
    · cases hdoc
  · have hw := ho.running.wellFormed
    rcases hs with ⟨hnone, rfl⟩ | ⟨text, stamp, htext, hdoc⟩
    · refine habsent ?_
      rw [documentPath_eq ho.normal]
      exact exists?_child_free hw ho.normal ho.holds isName_documentName hnone
    · have hthere : exists? (documentPath dir) w = (.ok true, w) := by
        rw [documentPath_eq ho.normal]
        exact exists?_child_found hw ho.normal ho.holds hdoc (by simp)
      have hread : Store.readRecords dir w = (.ok (records.map Document.restored), w) := by
        have hbytes := read_child hw ho.normal ho.holds hdoc
        rw [← documentPath_eq ho.normal] at hbytes
        rw [Store.readRecords, bind_ok hbytes, Text.Utf8.decode_encode, String.ofList_toList,
          Document.parse_serialize hr hd htext]
        rfl
      rw [Store.load, bind_ok hthere]
      simp only [Bool.not_true, Bool.false_eq_true, if_false]
      rw [bind_ok (attempt_ok hread)]
      rfl

theorem Shelf.normal (h : Shelf dir entries w) : Path.IsNormal dir := by
  rcases h with ⟨hm, -⟩ | ⟨loc, ho⟩
  · exact hm.normal
  · exact ho.normal

/-- What is opened where a cache stands has the records of that cache. -/
theorem Stands.reopen (h : Stands false cache entries w)
    (hf : ∀ e ∈ cache.store.records, e.sizeBytes.isFinite = true) {settings : CacheSettings}
    (hd : Path.resolve w.workingDirectory settings.directory = cache.directory) :
    load settings w = (.ok ⟨{ settings with directory := cache.directory }, cache.store⟩, w) := by
  have hstore := h.shelf.load h.consistent.inSync
    (fun e he => (h.consistent.filed e he).restorable) h.consistent.distinct
  have hsame : cache.store.records.map Document.restored = cache.store.records := by
    conv_rhs => rw [← List.map_id cache.store.records]
    exact List.map_congr_left fun e he => Document.restored_eq_self (hf e he)
  rw [hsame, ← h.root_eq] at hstore
  rw [← h.root_eq] at hd ⊢
  exact load_of_store hd hstore

/-- What is opened with the settings of a cache that stands is that cache. -/
theorem Stands.load (h : Stands false cache entries w)
    (hf : ∀ e ∈ cache.store.records, e.sizeBytes.isFinite = true) :
    load cache.settings w = (.ok cache, w) :=
  h.reopen hf (h.shelf.normal.resolve_eq w.workingDirectory)

/-- Calls one after the other, with all that they answer. -/
def Call.runAll (cache : Cache) : List Call → Effect (List Answer × Cache)
  | [] => return ([], cache)
  | call :: rest => do
    let (answer, cache) ← call.run cache
    let (answers, cache) ← runAll cache rest
    return (answer :: answers, cache)

/-- After every run the cache can be opened again with its settings as it is: what is opened cannot
be told apart from it by any calls, their answers and what they do to the files. Sizes beyond all
finite numbers have no text and are excluded. -/
theorem Run.restart {May : State → Call → Prop} {settings : CacheSettings} {s₀ s : State}
    (h₀ : Starts settings s₀) (h : Run May s₀ s)
    (hf : ∀ e ∈ s.cache.store.records, e.sizeBytes.isFinite = true) :
    ∃ reopened, load s.cache.settings s.world = (.ok reopened, s.world) ∧
      reopened.store.records = s.cache.store.records ∧
      ∀ (w : World) (calls : List Call), Call.runAll reopened calls w = Call.runAll s.cache calls w := by
  obtain ⟨entries, hs⟩ := h.stands h₀
  exact ⟨s.cache, hs.load hf, rfl, fun w calls => rfl⟩

theorem Run.restart_built :
    Starts ⟨true, "/W/c", 1, 30⟩ ⟨⟨⟨true, "/W/c", 1, 30⟩, ⟨"/W/c", []⟩⟩, built⟩ ∧
      ∃ s, Run (fun _ _ => True) ⟨⟨⟨true, "/W/c", 1, 30⟩, ⟨"/W/c", []⟩⟩, built⟩ s ∧
        s.cache.store.records.map (·.sizeBytes) = [3] ∧
        (∀ e ∈ s.cache.store.records, e.sizeBytes.isFinite = true) ∧
        ∃ reopened, load s.cache.settings s.world = (.ok reopened, s.world) ∧
          reopened.store.records = s.cache.store.records ∧ ∀ (w : World) (calls : List Call),
            Call.runAll reopened calls w = Call.runAll s.cache calls w := by
  obtain ⟨s, hx, hcache, -⟩ := store_built
  have hfinite : ∀ e ∈ s.cache.store.records, e.sizeBytes.isFinite = true := by
    rw [hcache]
    decide +kernel
  let s₀ : State := ⟨⟨⟨true, "/W/c", 1, 30⟩, ⟨"/W/c", []⟩⟩, built⟩
  have hrun : Run (fun _ _ => True) s₀ s := .single (.call _ trivial hx)
  exact ⟨starts_built, s, hrun, by rw [hcache]; rfl, hfinite, Run.restart starts_built hrun hfinite⟩

end ScriptPack.Cache

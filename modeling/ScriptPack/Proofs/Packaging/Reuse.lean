import ScriptPack.Proofs.Cache.Restart
import ScriptPack.Proofs.Packaging.Provenance

/-!
Builds that are reused. Once a call has kept what its engine made, later calls for the same script
and arguments find that, as long as its record is not removed and in its time; they need no engine.
-/

namespace ScriptPack

open Effect Cache

namespace Files

variable {script script' invocation signature : String} {w w' : World}

end Files

namespace Cache

variable {cache cache' : Cache} {entries : List (String × Node)} {w w' : World}

/-- Whether records may have been removed or replaced by a call with this answer. -/
def Answer.Removes : Answer → Prop
  | .stored done => done = true
  | .artifact _ => False
  | .evicted _ => True
  | .cleared done => done = true
  | .updated => False

/-- A call of a cache that has all its artifacts keeps it so, and leaves the records unless it
answers otherwise. -/
theorem Call.run_leaves (call : Call) {answer : Answer} (hs : Stands false cache entries w)
    (h : Exact (fun _ _ => True) entries cache.store.records) (hg : GivesTree ⟨cache, w⟩ call)
    (hx : call.run cache w = (.ok (answer, cache'), w')) :
    ∃ entries', Stands false cache' entries' w' ∧
      Exact (fun _ _ => True) entries' cache'.store.records ∧
      cache'.directory = cache.directory ∧
      (answer.Removes ∨ cache'.store.records = cache.store.records) := by
  obtain ⟨_, _, entries', _, hx', hs', hm⟩ := call.run_cases hs
  cases hx.symm.trans hx'
  have hexact := (hm.exact hs hs'.consistent hg h).mono fun _ _ _ _ => trivial
  refine ⟨entries', hs', hexact, ?_, ?_⟩
  · cases hm <;> rfl
  · cases hm with
    | left => exact .inr rfl
    | kept => exact .inl rfl
    | dropped _ hg hgone => cases hgone.symm.trans (h.exists? hs (Records.mem_of_get? hg).1)
    | evicted => exact .inl trivial
    | cleared => exact .inl rfl
    | updated => exact .inr rfl

end Cache

namespace Packaging

variable {cache : Cache} {entries : List (String × Node)} {w : World} {entry : Entry}
  {made : Entry → Node → Prop} {May : Cache → Prop} {s s' : Cache.State}

/-- One step in the use of a cache: a packaging call or another call, or it is opened again on its
folder, or something changes outside of that. Where records may have been removed, `May` says what
the cache has to be like afterwards. Sizes beyond all finite numbers cannot be read back. -/
inductive Use.Step (May : Cache → Prop) : Cache.State → Cache.State → Prop
  | packaged {s : Cache.State} {engine : Engine} {request : Request}
      {discoverer discoverer' : Option Discoverer} {result : Except Failure Result}
      {cache : Cache} {w : World}
      (hq : Quiet s.cache.directory engine request ⟨some s.cache, discoverer⟩ s.world)
      (h : package engine request ⟨some s.cache, discoverer⟩ s.world =
        (.ok (result, ⟨some cache, discoverer'⟩), w))
      (hm : ∀ r, result = .ok r → r.stored = true → May cache) : Step May s ⟨cache, w⟩
  | called {s : Cache.State} {call : Call} {answer : Answer} {cache : Cache} {w : World}
      (hg : GivesTree s call) (h : call.run s.cache s.world = (.ok (answer, cache), w))
      (hm : answer.Removes → May cache) : Step May s ⟨cache, w⟩
  | reopened {s : Cache.State} {settings : CacheSettings} {cache : Cache} {w : World}
      (hf : ∀ e ∈ s.cache.store.records, e.sizeBytes.isFinite = true)
      (h : load settings s.world = (.ok cache, w)) (hd : cache.directory = s.cache.directory) :
      Step May s ⟨cache, w⟩
  | elsewhere {s : Cache.State} {w : World} (h : Untouched s.cache.directory s.world w) :
      Step May s ⟨s.cache, w⟩

abbrev Use (May : Cache → Prop) : Cache.State → Cache.State → Prop :=
  Relation.ReflTransGen (Use.Step May)

/-- A cache has its folder for itself, with the artifacts of all its records. -/
def Stocked (s : Cache.State) : Prop :=
  ∃ entries, s.cache.Stands false entries s.world ∧
    Exact (fun _ _ => True) entries s.cache.store.records

/-- A step leaves a cache with all its artifacts, and with its records unless they may have been
removed. -/
theorem Use.Step.stocked (hstep : Use.Step May s s') (h : Stocked s) :
    Stocked s' ∧ s'.cache.directory = s.cache.directory ∧
      (May s'.cache ∨ s'.cache.store.records = s.cache.store.records) := by
  obtain ⟨entries, hs, hexact⟩ := h
  cases hstep with
  | elsewhere hu => exact ⟨⟨entries, hu.stands hs, hexact⟩, rfl, .inr rfl⟩
  | called hg hx hm =>
      obtain ⟨entries', hs', hexact', hdirectory, hleaves⟩ := Call.run_leaves _ hs hexact hg hx
      exact ⟨⟨entries', hs', hexact'⟩, hdirectory, hleaves.imp_left hm⟩
  | @reopened settings _ _ hf hx hd =>
      obtain ⟨records, w₁, hload, -⟩ :=
        Store.load_does (Path.resolve s.world.workingDirectory settings.directory) s.world
      have hroot : Path.resolve s.world.workingDirectory settings.directory =
          s.cache.directory := by
        cases hx.symm.trans (load_of_store rfl hload)
        exact hd
      cases hx.symm.trans (hs.reopen hf hroot)
      exact ⟨⟨entries, ⟨hs.root_eq, hs.shelf, hs.consistent⟩, hexact⟩, rfl, .inr rfl⟩
  | packaged hq hx hm =>
      obtain ⟨_, _, _, _, hx', hcases⟩ := package_cases hs hexact hq
      cases hx.symm.trans hx'
      rcases hcases with ⟨rfl, hs', -⟩ |
        ⟨signature, modules, produced, stored, w₁, rfl, hproduce, hs₁, -, hkeep⟩
      · exact ⟨⟨entries, hs', hexact⟩, rfl, .inr rfl⟩
      · obtain ⟨entries', hs', hexact', hdirectory, hleaves⟩ := Call.run_leaves
          (.store _ _ produced (some signature)) hs₁ hexact
          (hq.tree (some signature) modules produced _ w₁ hproduce) (bind_ok hkeep)
        exact ⟨⟨entries', hs', hexact'⟩, hdirectory, hleaves.imp_left fun hr => hm _ rfl hr⟩

theorem Use.stocked {settings : CacheSettings} {s₀ : Cache.State} (h₀ : Starts settings s₀)
    (h : Use May s₀ s) : Stocked s := by
  induction h with
  | refl =>
      obtain ⟨w, hr, hl, ha⟩ := h₀
      have hs := load_missing hr hl ha
      refine ⟨[], hs, ?_⟩
      rw [hs.records_eq_nil]
      exact ⟨nofun, nofun⟩
  | tail _ hstep ih => exact (hstep.stocked ih).1

/-- A record that is still there wherever it may have been removed is there at the end. -/
theorem Use.keeps (h : Use (entry ∈ ·.store.records) s s') (hs : Stocked s)
    (he : entry ∈ s.cache.store.records) :
    Stocked s' ∧ entry ∈ s'.cache.store.records := by
  induction h with
  | refl => exact ⟨hs, he⟩
  | tail _ hstep ih =>
      obtain ⟨hs', -, hleaves⟩ := hstep.stocked ih.1
      exact ⟨hs', hleaves.elim id fun heq => heq ▸ ih.2⟩

end Packaging

end ScriptPack

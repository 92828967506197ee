import Mathlib.Logic.Relation
import ScriptPack.Proofs.Cache.Atomicity
import ScriptPack.Proofs.Cache.Clearing
import ScriptPack.Proofs.Cache.Finding
import ScriptPack.Proofs.Cache.Keeping

/-!
Runs of one cache: calls in any order, between which the world may change outside of the folder of
the cache. Through every run the document lists the records, and each call changes records and
entries together in one of a few ways.
-/

namespace ScriptPack.Cache

open Effect Node Lookup Files

/-- A call that is made of a cache. -/
inductive Call
  | store (script invocation output : String) (expected : Option String)
  | lookup (script invocation : String)
  | lookupSignature (signature : String)
  | evict
  | clear
  | update (change : CacheChange)

/-- What a call answers. -/
inductive Answer
  | stored (done : Bool)
  | artifact (path : Option String)
  | evicted (count : Nat)
  | cleared (done : Bool)
  | updated
  deriving DecidableEq

def Call.run (cache : Cache) : Call → Effect (Answer × Cache)
  | store script invocation output expected => do
    let (done, cache) ← cache.keep script invocation output expected
    return (.stored done, cache)
  | lookup script invocation => do
    let (path, cache) ← cache.lookup script invocation
    return (.artifact path, cache)
  | lookupSignature signature => do
    let (path, cache) ← cache.lookupSignature signature
    return (.artifact path, cache)
  | evict => do
    let (count, cache) ← cache.evict
    return (.evicted count, cache)
  | clear => do
    let (done, cache) ← cache.clear
    return (.cleared done, cache)
  | update change => return (.updated, cache.update change)

/-- A change of the world outside of a folder. What was missing is still missing, and what is in
the folder stays, wherever its path leads now. -/
structure Untouched (dir : String) (w w' : World) : Prop where
  running : w'.Running
  missing : ¬Leads? w.root dir → ¬Leads? w'.root dir
  holds : ∀ loc entries, Holds w.root dir loc entries → ∃ loc', Holds w'.root dir loc' entries

structure State where
  cache : Cache
  world : World

/-- One step of a run: a call that may be made, or a change outside of the folder. -/
inductive Step (May : State → Call → Prop) : State → State → Prop
  | call {s : State} {cache : Cache} {w : World} {answer : Answer} (call : Call)
      (hm : May s call) (h : call.run s.cache s.world = (.ok (answer, cache), w)) :
      Step May s ⟨cache, w⟩
  | elsewhere {s : State} {w : World} (h : Untouched s.cache.directory s.world w) :
      Step May s ⟨s.cache, w⟩

abbrev Run (May : State → Call → Prop) : State → State → Prop := Relation.ReflTransGen (Step May)

/-- A call after which the folder need not be swept. -/
def Plain (call : Call) (answer : Answer) : Prop := call ≠ .evict ∧ answer ≠ .stored true

/-- How a call with an answer changes the cache and the entries of its folder. -/
inductive Move (cache : Cache) (w : World) (entries : List (String × Node)) :
    Call → Answer → Cache → List (String × Node) → Prop
  | left {call : Call} {answer : Answer} {entries' : List (String × Node)}
      (hp : Plain call answer) (hl : LeavesOut entries entries') :
      Move cache w entries call answer cache entries'
  | kept {script invocation output : String} {expected : Option String} {entry : Entry}
      {new : Node} {entries' : List (String × Node)}
      (hs : Files.signature script invocation w = (.ok entry.signature, w))
      (he : ∀ signature ∈ expected, signature = entry.signature) (hl : Leads? w.root (absolute w output))
      (ht : cache.TakesIn w output entry new entries entries') :
      Move cache w entries (.store script invocation output expected) (.stored true)
        (cache.recorded entry).afterEviction entries'
  | dropped {call : Call} {answer : Answer} {signature : String} {entry : Entry}
      {entries' : List (String × Node)} (hp : Plain call answer)
      (hg : cache.store.records.get? signature = some entry)
      (hx : exists? (cache.artifact entry) w = (.ok false, w))
      (hl : ∀ name, name ≠ documentName → entries'.lookup name = entries.lookup name) :
      Move cache w entries call answer
        (cache.withRecords (cache.store.records.erase [signature])) entries'
  | evicted {count : Nat} {entries' : List (String × Node)}
      (he : Evicted cache entries entries') :
      Move cache w entries .evict (.evicted count) cache.afterEviction entries'
  | cleared {entries' : List (String × Node)} (hc : Cleared entries') :
      Move cache w entries .clear (.cleared true) (cache.withRecords []) entries'
  | updated (change : CacheChange) :
      Move cache w entries (.update change) .updated (cache.update change) entries

variable {cache : Cache} {w : World} {entries : List (String × Node)} {shared : Bool}

theorem Call.run_lookupSignature (h : Stands shared cache entries w) (signature : String)
    {call : Call} (hne : call ≠ .evict) {x : Effect (Option String × Cache)}
    (hx : x w = cache.lookupSignature signature w) :
    ∃ answer cache' entries' w', x w = (.ok (answer, cache'), w') ∧
      Stands shared cache' entries' w' ∧
      Move cache w entries call (.artifact answer) cache' entries' := by
  rcases lookupSignature_cases h signature with
    ⟨answer, ⟨w', hx', he⟩, -⟩ | ⟨entry, entries', w', hx', hs, hg, hgone, hl⟩
  · exact ⟨answer, cache, entries, w', hx.trans hx', h.same he, .left ⟨hne, nofun⟩ (.inl rfl)⟩
  · exact ⟨none, _, entries', w', hx.trans hx', hs, .dropped ⟨hne, nofun⟩ hg hgone hl⟩

/-- Every call returns, and changes records and entries together. -/
theorem Call.run_cases (h : Stands shared cache entries w) (call : Call) :
    ∃ answer cache' entries' w', call.run cache w = (.ok (answer, cache'), w') ∧
      Stands shared cache' entries' w' ∧ Move cache w entries call answer cache' entries' := by
  cases call with
  | store script invocation output expected =>
      rcases keep_cases h script invocation output expected with
        ⟨entries', w', hx, hs, hl⟩ | ⟨entry, new, entries', w', hx, hs, hsame, he, hl, ht⟩
      · exact ⟨_, _, entries', w', bind_ok hx, hs, .left ⟨nofun, nofun⟩ hl⟩
      · exact ⟨_, _, entries', w', bind_ok hx, hs, .kept hsame he hl ht⟩
  | lookup script invocation =>
      rcases lookup_cases cache script invocation w with ⟨w', hx, he⟩ | ⟨signature, -, hx⟩
      · exact ⟨_, cache, entries, w', bind_ok hx, h.same he, .left ⟨nofun, nofun⟩ (.inl rfl)⟩
      · obtain ⟨answer, cache', entries', w', hx', hs, hm⟩ := run_lookupSignature h signature
          (nofun : Call.lookup script invocation ≠ .evict) hx
        exact ⟨_, cache', entries', w', bind_ok hx', hs, hm⟩
  | lookupSignature signature =>
      obtain ⟨answer, cache', entries', w', hx', hs, hm⟩ := run_lookupSignature h signature
        (nofun : Call.lookupSignature signature ≠ .evict) rfl
      exact ⟨_, cache', entries', w', bind_ok hx', hs, hm⟩
  | evict =>
      obtain ⟨entries', w', hx, hs, he⟩ := evict_cases h
      exact ⟨_, _, entries', w', bind_ok hx, hs, .evicted he⟩
  | clear =>
      rcases clear_cases h with ⟨w', hx, hs⟩ | ⟨entries', w', hx, hs, hc⟩
      · exact ⟨_, cache, entries, w', bind_ok hx, hs, .left ⟨nofun, nofun⟩ (.inl rfl)⟩
      · exact ⟨_, _, entries', w', bind_ok hx, hs, .cleared hc⟩
  | update change =>
      refine ⟨.updated, cache.update change, entries, w, rfl, ?_, .updated change⟩
      exact ⟨h.root_eq, h.shelf, h.consistent⟩

theorem Untouched.stands {w' : World} (hu : Untouched cache.directory w w')
    (h : Stands shared cache entries w) : Stands shared cache entries w' := by
  refine ⟨h.root_eq, ?_, h.consistent⟩
  rcases h.shelf with ⟨hm, rfl⟩ | ⟨loc, ho⟩
  · exact .inl ⟨⟨hu.running, hm.normal, hu.missing hm.absent⟩, rfl⟩
  · obtain ⟨loc', hh⟩ := hu.holds loc entries ho.holds
    exact .inr ⟨loc', hu.running, ho.normal, hh⟩

theorem leads?_root {root : Node} (h : IsFolderAt root []) : Leads? root "/" := by
  obtain ⟨entries, he⟩ := h
  have hsteps : steps "/" = ["."] := by decide
  refine ⟨[], .folder entries, place?_of_walk (by decide) (by decide) ?_⟩
  rw [hsteps, linkLimit, walk, walkWith_dot, walkWith, List.reverse_nil, he]

theorem load_of_store {settings : CacheSettings} {w : World} {records : Records} {w' : World}
    {root : String} (hroot : Path.resolve w.workingDirectory settings.directory = root)
    (h : Store.load root w = (.ok ⟨root, records⟩, w')) :
    load settings w = (.ok ⟨{ settings with directory := root }, ⟨root, records⟩⟩, w') := by
  subst hroot
  have hpath : resolvePath settings.directory w =
      (.ok (Path.resolve w.workingDirectory settings.directory), w) := bind_ok (get_apply w)
  rw [load, bind_ok hpath, bind_ok h]
  rfl

theorem isNormal_of_not_leads? {directory path : String} (hf : IsFolderAt w.root [])
    (ha : ¬Leads? w.root (Path.resolve directory path)) :
    Path.IsNormal (Path.resolve directory path) := by
  refine (Path.resolve_isNormal directory path).resolve_left fun heq => ha ?_
  rw [heq]
  exact leads?_root hf

/-- Where there is no folder, a cache is opened without records. -/
theorem load_absent {settings : CacheSettings} {root : String} (hr : w.Running)
    (hroot : Path.resolve w.workingDirectory settings.directory = root)
    (ha : ¬Leads? w.root root) :
    load settings w = (.ok ⟨{ settings with directory := root }, ⟨root, []⟩⟩, w) := by
  subst hroot
  have hnormal := isNormal_of_not_leads? hr.folder ha
  have hnone := (⟨hr, hnormal, ha⟩ : Missing _ w).closed.exists?_child isStep_documentName
  rw [← documentPath_eq hnormal] at hnone
  refine load_of_store rfl ?_
  rw [Store.load, bind_ok hnone]
  rfl

/-- A cache that is opened where there is no folder has no records. -/
theorem load_missing {settings : CacheSettings} {w' : World} (hr : w.Running)
    (h : load settings w = (.ok cache, w')) (ha : ¬Leads? w.root cache.directory) :
    Stands false cache [] w' := by
  obtain ⟨records, w₁, hx, -⟩ :=
    Store.load_does (Path.resolve w.workingDirectory settings.directory) w
  cases h.symm.trans (load_of_store rfl hx)
  change ¬Leads? w.root (Path.resolve w.workingDirectory settings.directory) at ha
  cases (load_absent hr rfl ha).symm.trans (load_of_store rfl hx)
  exact ⟨rfl, .inl ⟨⟨hr, isNormal_of_not_leads? hr.folder ha, ha⟩, rfl⟩, .empty⟩

/-- A cache that is opened where there is no folder yet. -/
def Starts (settings : CacheSettings) (s : State) : Prop :=
  ∃ w, w.Running ∧ load settings w = (.ok s.cache, s.world) ∧ ¬Leads? w.root s.cache.directory

theorem Step.directory_eq {May : State → Call → Prop} {s s' : State}
    (h : Step May s s') (hs : ∃ entries, Stands shared s.cache entries s.world) :
    s'.cache.directory = s.cache.directory ∧
      ∃ entries, Stands shared s'.cache entries s'.world := by
  obtain ⟨entries, hs⟩ := hs
  cases h with
  | call call hm hx =>
      obtain ⟨answer, cache', entries', w', hx', hs', hmove⟩ := call.run_cases hs
      cases hx.symm.trans hx'
      refine ⟨?_, entries', hs'⟩
      cases hmove <;> rfl
  | elsewhere hu => exact ⟨rfl, entries, hu.stands hs⟩

/-- Through every run the folder stands. -/
theorem Run.stands {May : State → Call → Prop} {settings : CacheSettings} {s₀ s : State}
    (h₀ : Starts settings s₀) (h : Run May s₀ s) :
    ∃ entries, Stands false s.cache entries s.world := by
  induction h with
  | refl =>
      obtain ⟨w, hr, hl, ha⟩ := h₀
      exact ⟨[], load_missing hr hl ha⟩
  | tail _ hstep ih => exact (hstep.directory_eq ih).2

theorem not_leads?_of_exists? {path : String} (h : (exists? path w).1.toOption = some false) :
    ¬Leads? w.root (absolute w path) := by
  rintro ⟨loc, node, hp⟩
  rw [exists?_of_found hp] at h
  cases h

theorem Starts.of_absent {settings : CacheSettings} (hr : w.Running)
    (hroot : Path.resolve w.workingDirectory settings.directory = settings.directory)
    (hx : (exists? settings.directory w).1.toOption = some false) :
    Starts settings ⟨⟨settings, ⟨settings.directory, []⟩⟩, w⟩ := by
  have ha := not_leads?_of_exists? hx
  have habs : absolute w settings.directory = settings.directory := by
    rw [← hroot]
    exact absolute_of_isAbsolute (by simp [Path.resolve, Path.isAbsolute])
  rw [habs] at ha
  exact ⟨w, hr, load_absent hr hroot ha, ha⟩

/-- A script and a folder with what was built from it, and no folder for a cache. -/
def built : World := .start (.folder [("W", .folder
  [("a.py", .file [112] ⟨1700000000, 0⟩), ("o", .folder [("x", .file [1, 2, 3] ⟨0, 0⟩)])])])

theorem starts_built :
    Starts ⟨true, "/W/c", 1, 30⟩ ⟨⟨⟨true, "/W/c", 1, 30⟩, ⟨"/W/c", []⟩⟩, built⟩ :=
  .of_absent (World.start_running (by decide) ⟨_, rfl⟩) (by decide +kernel) (by decide +kernel)

/-- What is recorded when the folder is stored. -/
def builtEntry : Entry :=
  ⟨"785f08fa545ce748ed44576a938adc142382dd9f3a644ff024073a6d3aedf3a1",
    "build_785f08fa545ce748_1767225600", .at 1767225600000, "/W/a.py", "", 3⟩

/-- The call that stores the folder, run once for all that is said of it. -/
theorem store_built : ∃ s : State,
    (Call.store "/W/a.py" "" "/W/o" none).run ⟨⟨true, "/W/c", 1, 30⟩, ⟨"/W/c", []⟩⟩ built =
      (.ok (.stored true, s.cache), s.world) ∧
    s.cache = ⟨⟨true, "/W/c", 1, 30⟩, ⟨"/W/c", [builtEntry]⟩⟩ ∧ s.world.clock = built.clock := by
  obtain ⟨⟨⟨answer, cache⟩, w'⟩, w, hx, hvalue⟩ := ok_of_toOption (do
      let stored ← (Call.store "/W/a.py" "" "/W/o" none).run ⟨⟨true, "/W/c", 1, 30⟩, ⟨"/W/c", []⟩⟩
      return (stored, ← get))
    (fun r => decide (r.1.1 = .stored true ∧ r.2.clock = built.clock ∧
      r.1.2.settings.enabled = true ∧ r.1.2.settings.directory = "/W/c" ∧
      r.1.2.settings.maxSizeMB = 1 ∧ r.1.2.settings.retentionDays = 30 ∧
      r.1.2.store.root = "/W/c" ∧ r.1.2.store.records = [builtEntry])) true built
    (by decide +kernel)
  obtain ⟨⟨answer', cache'⟩, w₁, hstore, hx⟩ := bind_eq_ok hx
  obtain ⟨_, _, hget, hx⟩ := bind_eq_ok hx
  cases hget
  cases hx
  obtain ⟨rfl, hclock, henabled, hdirectory, hmax, hdays, hroot, hrecords⟩ :=
    of_decide_eq_true hvalue
  obtain ⟨⟨enabled, directory, maxSizeMB, retentionDays⟩, ⟨root, records⟩⟩ := cache
  simp only at henabled hdirectory hmax hdays hroot hrecords
  subst henabled hdirectory hmax hdays hroot hrecords
  exact ⟨⟨_, w'⟩, hstore, rfl, hclock⟩

/-- The signature under which the folder is stored is that of the script. -/
theorem signature_built :
    Files.signature "/W/a.py" "" built = (.ok builtEntry.signature, built) := by
  obtain ⟨⟨cache, w'⟩, hx, hcache, -⟩ := store_built
  have hmem : builtEntry ∈ cache.store.records := by
    rw [show cache = _ from hcache]
    exact List.mem_singleton_self _
  clear hcache
  obtain ⟨w, hr, hload, ha⟩ := starts_built
  obtain ⟨_, _, _, _, hx', -, hm⟩ := Call.run_cases (load_missing hr hload ha)
    (.store "/W/a.py" "" "/W/o" none)
  cases hx.symm.trans hx'
  cases hm with
  | left hp | dropped hp => exact absurd rfl hp.2
  | @kept _ _ _ _ entry _ _ hs =>
      have hone : Records.set [] entry = [entry] := rfl
      have hin : builtEntry ∈ Records.set [] entry := (Records.mem_erase.mp hmem).1
      rw [hone, List.mem_singleton] at hin
      rw [hin]
      exact hs

end ScriptPack.Cache

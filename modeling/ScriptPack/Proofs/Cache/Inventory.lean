import ScriptPack.Proofs.Cache.Ageing
import ScriptPack.Proofs.Cache.Run

/-!
The inventory of a cache. Through every run in which trees without links are stored, each record has
an artifact of its own, a copy of what was stored for it, and its size; after a sweep there is
nothing else.
-/

namespace ScriptPack.Cache

open Effect Node Lookup Files

/-- Each record has an artifact of its own, which is how `made` says and as large as recorded. -/
structure Exact (made : Entry → Node → Prop) (entries : List (String × Node))
    (records : Records) : Prop where
  own : ∀ e ∈ records, ∀ e' ∈ records, e.cacheId = e'.cacheId → e = e'
  stored : ∀ e ∈ records, ∃ node, entries.lookup e.cacheId = some node ∧ node.LinkFree ∧
    e.sizeBytes = .ofNat node.size ∧ made e node

variable {cache : Cache} {w : World} {entries entries' : List (String × Node)}
  {records : Records} {made made' : Entry → Node → Prop} {entry : Entry} {new : Node}
  {output : String} {shared : Bool}

namespace Exact

theorem mono (h : Exact made entries records)
    (hm : ∀ e ∈ records, ∀ node, made e node → made' e node) : Exact made' entries records := by
  refine ⟨h.own, fun e he => ?_⟩
  obtain ⟨node, hl, hfree, hsize, hmade⟩ := h.stored e he
  exact ⟨node, hl, hfree, hsize, hm e he node hmade⟩

theorem nodup (h : Exact made entries records) (hd : (records.map (·.signature)).Nodup) :
    (records.map (·.cacheId)).Nodup :=
  (List.Nodup.of_map _ hd).map_on h.own

/-- It is enough that the artifacts stay. -/
theorem congr (h : Exact made entries records)
    (hl : ∀ e ∈ records, entries'.lookup e.cacheId = entries.lookup e.cacheId) :
    Exact made entries' records := by
  refine ⟨h.own, fun e he => ?_⟩
  rw [hl e he]
  exact h.stored e he

/-- A vacant id is the id of no record. -/
theorem ne_of_vacant (h : Exact made entries records) {id : String} (hv : Vacant entries id)
    {e : Entry} (he : e ∈ records) : e.cacheId ≠ id := by
  rintro rfl
  obtain ⟨node, hl, hfree, -⟩ := h.stored e he
  obtain ⟨target, rfl⟩ := hv node hl
  cases hfree

theorem leavesOut (h : Exact made entries records) (hl : LeavesOut entries entries') :
    Exact made entries' records := by
  rcases hl with rfl | ⟨id, hv, hu⟩
  · exact h
  · refine h.congr fun e he => ?_
    rw [hu, if_neg (h.ne_of_vacant hv he)]

theorem exists? (h : Exact made entries cache.store.records)
    (hs : Stands shared cache entries w) {e : Entry} (he : e ∈ cache.store.records) :
    Files.exists? (cache.artifact e) w = (.ok true, w) := by
  obtain ⟨node, hl, hfree, -⟩ := h.stored e he
  have hid := (hs.consistent.filed e he).isId
  rcases hs.shelf with ⟨-, rfl⟩ | ⟨loc, ho⟩
  · cases hl
  · rw [artifact, artifactPath_eq ho.normal (isStep_of_isName hid.isName)]
    refine exists?_child_found ho.running.wellFormed ho.normal ho.holds hl ?_
    rintro target rfl
    cases hfree

/-- Eviction takes artifacts away together with their records. -/
theorem evict (h : Exact made entries cache.store.records)
    (hid : ∀ e ∈ cache.afterEviction.store.records, isDocumentName e.cacheId = false)
    (he : Evicted cache entries entries') :
    Exact made entries' cache.afterEviction.store.records := by
  have hkept (e) (hmem : e ∈ cache.afterEviction.store.records) : e ∈ cache.store.records ∧
      e.signature ∉ cache.evicted.map (·.signature) := Records.mem_erase.mp hmem
  refine ⟨fun e hmem e' hmem' => h.own e (hkept e hmem).1 e' (hkept e' hmem').1,
    fun e hmem => ?_⟩
  obtain ⟨hin, hout⟩ := hkept e hmem
  have hkeeps : cache.keeps e.cacheId = true := by
    rw [keeps, Bool.or_eq_true, List.any_eq_true]
    exact .inr ⟨e, hin, by simp⟩
  have hnot : (cache.evicted.map (·.cacheId)).contains e.cacheId = false := by
    rw [List.contains_eq_mem, decide_eq_false_iff_not, List.mem_map]
    rintro ⟨victim, hv, heq⟩
    rw [h.own victim (mem_records_of_mem_evicted hv) e hin heq] at hv
    exact hout (List.mem_map_of_mem hv)
  rw [he _ (hid e hmem), hkeeps, hnot]
  exact h.stored e hin

end Exact

/-- The artifact that an entry makes outdated is that of no record afterwards. -/
theorem Exact.not_outdated (h : Exact made entries records) (hv : Vacant entries entry.cacheId)
    {e : Entry} (he : e ∈ records.set entry) :
    (outdated records entry).contains e.cacheId = false := by
  rw [List.contains_eq_mem, decide_eq_false_iff_not, outdated, List.mem_filter, List.mem_map]
  rintro ⟨⟨previous, hp, heq⟩, hother⟩
  obtain ⟨hprevious, hsignature⟩ := Records.mem_of_get? (Option.mem_toList.mp hp)
  rcases Records.mem_set he with rfl | ⟨hin, hne⟩
  · simp at hother
  · rw [h.own previous hprevious e hin heq] at hsignature
    exact hne hsignature

/-- A new entry with an artifact under a vacant id. -/
theorem Exact.set (h : Exact made entries records) (hs : Sorted entries)
    (hv : Vacant entries entry.cacheId) (hfree : new.LinkFree)
    (hsize : entry.sizeBytes = .ofNat new.size) (hmade : made entry new) :
    Exact made (setEntry entry.cacheId new entries) (records.set entry) := by
  refine ⟨fun e hmem e' hmem' heq => ?_, fun e hmem => ?_⟩
  · rcases Records.mem_set hmem with rfl | ⟨hin, -⟩ <;>
      rcases Records.mem_set hmem' with rfl | ⟨hin', -⟩
    · rfl
    · exact absurd heq.symm (h.ne_of_vacant hv hin')
    · exact absurd heq (h.ne_of_vacant hv hin)
    · exact h.own e hin e' hin' heq
  · rw [lookup_setEntry hs]
    rcases Records.mem_set hmem with rfl | ⟨hin, -⟩
    · exact ⟨new, if_pos rfl, hfree, hsize, hmade⟩
    · rw [if_neg (h.ne_of_vacant hv hin)]
      exact h.stored e hin

/-- A new entry takes the place of an outdated one, and then others may be evicted. -/
theorem TakesIn.exact (ht : cache.TakesIn w output entry new entries entries')
    (h : Exact made entries cache.store.records)
    (hc : Consistent shared entries cache.store.records) (hs : Sorted entries)
    (hfree : new.LinkFree) (hmade : made entry new) :
    Exact made entries' (cache.recorded entry).afterEviction.store.records := by
  obtain ⟨between, hb, he⟩ := ht.recorded
  have hid (e) (hmem : e ∈ cache.store.records.set entry) : isDocumentName e.cacheId = false := by
    rcases Records.mem_set hmem with rfl | ⟨hin, -⟩
    · exact ht.filed.isId.not_document
    · exact (hc.filed e hin).isId.not_document
  have hexact : Exact made between (cache.recorded entry).store.records :=
    (h.set hs ht.vacant hfree ht.size hmade).congr fun e hmem => by
      rw [hb _ (hid e hmem), h.not_outdated ht.vacant hmem]
      rfl
  exact hexact.evict (fun e hmem => hid e (Records.mem_erase.mp hmem).1) he

/-- A call that stores no links and nothing that contains the folder of the cache. -/
def GivesTree (s : State) : Call → Prop
  | .store _ _ output _ => ∀ loc node,
      place? s.world.root false (absolute s.world output) = .ok (.found loc node) →
      node.LinkFree ∧ ¬loc <+: folderLocation s.world.root s.cache.directory
  | _ => True

/-- A store call that has taken an entry in, from a tree with the contents of its artifact. -/
inductive Takes (s : State) : Call → Answer → Cache → Entry → Node → Prop
  | store {script invocation output : String} {expected : Option String} {cache : Cache}
      {e : Entry} {loc : Location} {node new : Node}
      (hp : place? s.world.root false (absolute s.world output) = .ok (.found loc node))
      (hc : new.contents = node.contents) (ho : e ∉ s.cache.store.records)
      (hn : e ∈ cache.store.records) :
      Takes s (.store script invocation output expected) (.stored true) cache e new

theorem Stands.sorted (h : Stands shared cache entries w) : Sorted entries := by
  rcases h.shelf with ⟨-, rfl⟩ | ⟨loc, ho⟩
  · exact .nil
  · exact ho.wellFormed.sorted

/-- Every call keeps the inventory, with what it takes in. -/
theorem Move.exact {call : Call} {answer : Answer} {cache' : Cache}
    (hm : Move cache w entries call answer cache' entries')
    (hs : Stands shared cache entries w)
    (hc : Consistent shared entries' cache'.store.records) (hg : GivesTree ⟨cache, w⟩ call)
    (h : Exact made entries cache.store.records) :
    Exact (fun e node => made e node ∨ Takes ⟨cache, w⟩ call answer cache' e node) entries'
      cache'.store.records := by
  have hold := h.mono fun e _ node hmade =>
    (.inl hmade : made e node ∨ Takes ⟨cache, w⟩ call answer cache' e node)
  cases hm with
  | left _ hl => exact hold.leavesOut hl
  | @kept script invocation output expected entry new _ _ _ hl ht =>
      obtain ⟨_, _, hfound⟩ := hl
      obtain ⟨loc, node, hp⟩ := place?_unfollowed hfound
      obtain ⟨hfree, hout⟩ := hg loc node hp
      have hcopy := ht.copies loc node hp hout
      have hnew : entry ∉ cache.store.records := fun hin => h.ne_of_vacant ht.vacant hin rfl
      have hexact := ht.exact (h.mono fun e _ node hmade =>
        (.inl hmade : made e node ∨ e = entry ∧ node = new)) hs.consistent hs.sorted
        (hcopy.linkFree hfree) (.inr ⟨rfl, rfl⟩)
      refine hexact.mono fun e hmem there hmade => ?_
      rcases hmade with hmade | ⟨rfl, rfl⟩
      · exact .inl hmade
      · exact .inr (.store hp (hcopy.contents hfree) hnew hmem)
  | dropped _ hg hx _ =>
      cases hx.symm.trans (h.exists? hs (Records.mem_of_get? hg).1)
  | evicted he => exact hold.evict (fun e hmem => (hc.filed e hmem).isId.not_document) he
  | cleared hc => exact ⟨nofun, nofun⟩
  | updated change => exact hold

/-- A store call before a state has taken an entry in. -/
def Stored (s₀ s : State) (e : Entry) (node : Node) : Prop :=
  ∃ before after call answer, Run GivesTree s₀ before ∧ GivesTree before call ∧
    call.run before.cache before.world = (.ok (answer, after.cache), after.world) ∧
    Takes before call answer after.cache e node ∧ Run GivesTree after s

theorem Stored.step {s₀ s s' : State} {e : Entry} {node : Node} (h : Stored s₀ s e node)
    (hs : Step GivesTree s s') : Stored s₀ s' e node := by
  obtain ⟨before, after, call, answer, hbefore, hg, hx, ht, hafter⟩ := h
  exact ⟨before, after, call, answer, hbefore, hg, hx, ht, hafter.tail hs⟩

theorem Run.inventory {settings : CacheSettings} {s₀ s : State} (h₀ : Starts settings s₀)
    (h : Run GivesTree s₀ s) :
    ∃ entries, Stands false s.cache entries s.world ∧
      Exact (Stored s₀ s) entries s.cache.store.records := by
  induction h with
  | refl =>
      obtain ⟨w, hr, hl, ha⟩ := h₀
      have hs := load_missing hr hl ha
      refine ⟨[], hs, ?_⟩
      rw [hs.records_eq_nil]
      exact ⟨nofun, nofun⟩
  | @tail s s' hrun hstep ih =>
      obtain ⟨entries, hs, hexact⟩ := ih
      have hold := hexact.mono fun e _ node hmade => hmade.step hstep
      cases hstep with
      | elsewhere hu => exact ⟨entries, hu.stands hs, hold⟩
      | @call cache w answer call hg hx =>
          obtain ⟨answer', cache', entries', w', hx', hs', hm⟩ := call.run_cases hs
          cases hx.symm.trans hx'
          refine ⟨entries', hs', (hm.exact hs hs'.consistent hg hold).mono fun e _ node hmade => ?_⟩
          exact hmade.elim id fun ht =>
            ⟨s, ⟨cache, w⟩, call, answer, hrun, hg, hx, ht, .refl⟩

theorem Exact.size (h : Exact made entries cache.store.records)
    (hs : Stands shared cache entries w) {e : Entry} (he : e ∈ cache.store.records) {node : Node}
    (hl : entries.lookup e.cacheId = some node) :
    Files.size (cache.artifact e) w = (.ok node.size, w) := by
  have hid := (hs.consistent.filed e he).isId
  rcases hs.shelf with ⟨-, rfl⟩ | ⟨loc, ho⟩
  · cases hl
  · rw [artifact, artifactPath_eq ho.normal (isStep_of_isName hid.isName)]
    exact size_child ho.running.wellFormed ho.normal ho.holds hl

/-- The artifact of a record in its time is found. -/
theorem lookupSignature_found (hs : Stands false cache entries w)
    (h : Exact made entries cache.store.records) (he : entry ∈ cache.store.records)
    (henabled : cache.settings.enabled = true) (hexpired : cache.isExpired w.clock entry = false) :
    Does (cache.lookupSignature entry.signature) w (some (cache.artifact entry), cache) w.root := by
  have hget := Records.get?_of_mem hs.consistent.distinct he
  have hhas : Has true cache entry.signature w entry :=
    ⟨henabled, hget, hexpired, h.exists? hs he⟩
  rcases lookupSignature_run cache entry.signature w with
    ⟨-, answer, hd, hfinds⟩ | ⟨entry', -, hgone, -⟩
  · obtain rfl := (hfinds (cache.artifact entry)).mpr ⟨entry, hhas, rfl⟩
    exact hd
  · cases (hhas.unique hgone).2

theorem givesTree_built : GivesTree ⟨⟨⟨true, "/W/c", 1, 30⟩, ⟨"/W/c", []⟩⟩, built⟩
    (.store "/W/a.py" "" "/W/o" none) := by
  have hplace : (place? built.root false (absolute built "/W/o")).toOption.map Place.location =
      some ["W", "o"] := by decide +kernel
  have hout : ¬["W", "o"] <+: folderLocation built.root "/W/c" := by decide +kernel
  intro loc node hp
  rw [hp, Except.toOption, Option.map_some, Option.some.injEq, Place.location] at hplace
  subst hplace
  have hnode := place?_found hp
  have hat : built.root.at? ["W", "o"] =
      some (.folder [("x", .file [1, 2, 3] ⟨0, 0⟩)]) := rfl
  cases hat.symm.trans hnode
  refine ⟨.folder _ fun e he => ?_, hout⟩
  rw [List.mem_singleton.mp he]
  exact .file _ _

end ScriptPack.Cache

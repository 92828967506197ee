import ScriptPack.Proofs.Cache.Inventory
import ScriptPack.Proofs.Cache.Restart

/-!
Caches that share a folder. Each has its own records, which the document need not list, and may
remove the artifacts of the others; but whatever artifact is in the folder is a copy of what was
stored under the signature that its name begins with.
-/

namespace ScriptPack.Cache

open Effect Node Lookup Files

/-- The beginning of a signature that goes into the ids of its artifacts. -/
def stem (signature : String) : List Char := signature.toList.take 16

/-- What a call keeps, if it is a store call that returns true: the signature under which it files,
and the output as it is at the time of the call. -/
def Call.kept (w : World) : Call → Answer → List (String × Node)
  | .store script invocation output _, .stored true =>
    match (Files.signature script invocation w).1, place? w.root false (absolute w output) with
    | .ok signature, .ok (.found _ node) => [(signature, node)]
    | _, _ => []
  | _, _ => []

theorem Call.signature_of_mem_kept {script invocation output : String} {expected : Option String}
    {answer : Answer} {w : World} {origin : String × Node}
    (h : origin ∈ kept w (.store script invocation output expected) answer) :
    (Files.signature script invocation w).1 = .ok origin.1 := by
  cases answer with
  | stored done =>
      cases done with
      | true =>
          rw [kept] at h
          cases hs : (Files.signature script invocation w).1 with
          | error stop => rw [hs] at h; cases h
          | ok signature =>
              rw [hs] at h
              split at h
              · rename_i heq _
                rw [List.mem_singleton.mp h]
                exact heq
              · cases h
      | false => cases h
  | artifact path => cases h
  | evicted count => cases h
  | cleared done => cases h
  | updated => cases h

/-- The caches that work in a folder, and what they have kept so far. -/
structure Site where
  caches : List Cache
  kept : List (String × Node)
  world : World

/-- One step of caches that share a folder: one more is opened, one of them is called, or something
changes outside of the folder, such as the clock. -/
inductive Site.Step (dir : String) : Site → Site → Prop
  | opened {s : Site} {settings : CacheSettings} {cache : Cache} {w : World}
      (h : load settings s.world = (.ok cache, w)) (hd : cache.directory = dir) :
      Step dir s ⟨s.caches ++ [cache], s.kept, w⟩
  | call {s : Site} {i : Nat} {cache cache' : Cache} {answer : Answer} {w : World} (call : Call)
      (hi : s.caches[i]? = some cache) (hg : GivesTree ⟨cache, s.world⟩ call)
      (h : call.run cache s.world = (.ok (answer, cache'), w)) :
      Step dir s ⟨s.caches.set i cache', s.kept ++ call.kept s.world answer, w⟩
  | elsewhere {s : Site} {w : World} (h : Untouched dir s.world w) :
      Step dir s ⟨s.caches, s.kept, w⟩

abbrev Site.Run (dir : String) : Site → Site → Prop := Relation.ReflTransGen (Site.Step dir)

variable {dir signature : String} {w w' : World} {entries entries' : List (String × Node)}
  {records records' other : Records} {cache cache' : Cache}

/-! ### Records beside a document of others -/

/-- Records of a cache that may not be alone in its folder. Until there is a document, there are no
records at all. -/
def Shared (entries : List (String × Node)) (records : Records) : Prop :=
  Consistent (entries.lookup documentName).isSome entries records

/-- The document does not mind which of the caches is asked. -/
theorem Consistent.beside (h : Consistent shared entries records)
    (hp : entries.lookup documentName ≠ none) (hf : ∀ e ∈ other, Filed e)
    (hd : (other.map (·.signature)).Nodup) : Consistent true entries other := by
  obtain ⟨known, hk⟩ := h.sync
  exact ⟨⟨known, hk.inSync, hk.filed, hk.distinct, nofun, fun _ => hp⟩, h.names, hf, hd⟩

namespace Shared

theorem nil : Shared [] [] := .empty

theorem eq_nil (h : Shared entries records) (hn : entries.lookup documentName = none) :
    records = [] := by
  rw [Shared, hn] at h
  rcases h.inSync with ⟨-, hnil⟩ | ⟨text, stamp, -, hdoc⟩
  · exact hnil
  · cases hn.symm.trans hdoc

/-- After a call to one of the caches, its records and those of any other are beside the document
that is there then. -/
theorem step (h : Shared entries other)
    (hc : Consistent (entries.lookup documentName).isSome entries' records) :
    Shared entries' records ∧ Shared entries' other := by
  by_cases hn : entries'.lookup documentName = none
  · -- There is still no document, so that there are no records.
    have hnone : entries.lookup documentName = none := by
      obtain ⟨known, hk⟩ := hc.sync
      by_contra hsome
      exact hk.present (Option.isSome_iff_ne_none.mpr hsome) hn
    rw [hnone] at hc
    have hsame : Shared entries' records := by
      rw [Shared, hn]
      exact hc
    refine ⟨hsame, ?_⟩
    rw [h.eq_nil hnone, ← hsame.eq_nil hn]
    exact hsame
  · have hsome : (entries'.lookup documentName).isSome = true := Option.isSome_iff_ne_none.mpr hn
    rw [Shared, Shared, hsome]
    exact ⟨hc.beside hn hc.filed hc.distinct, hc.beside hn h.filed h.distinct⟩

/-- A cache that is opened takes over what the document lists. -/
theorem load (hs : Shelf dir entries w) (h : Shared entries []) {settings : CacheSettings}
    (hx : load settings w = (.ok cache, w')) (hd : cache.directory = dir) :
    w' = w ∧ cache.store.root = dir ∧ Shared entries cache.store.records := by
  obtain ⟨known, hk⟩ := h.sync
  have hload := hs.load hk.inSync (fun e he => (hk.filed e he).restorable) hk.distinct
  obtain ⟨found, w₁, hx₁, -⟩ :=
    Store.load_does (Path.resolve w.workingDirectory settings.directory) w
  cases hx.symm.trans (load_of_store rfl hx₁)
  change Path.resolve w.workingDirectory settings.directory = dir at hd
  rw [hd] at hx₁ ⊢
  cases hload.symm.trans hx₁
  refine ⟨rfl, rfl, ?_⟩
  by_cases hn : entries.lookup documentName = none
  · have hnil : known = [] := hk.own (by rw [hn]; rfl)
    rw [hnil]
    exact h
  · have hsome : (entries.lookup documentName).isSome = true := Option.isSome_iff_ne_none.mpr hn
    rw [Shared, hsome]
    refine h.beside hn (fun e he => ?_) ?_
    · obtain ⟨e', he', rfl⟩ := List.mem_map.mp he
      exact (hk.filed e' he').restored
    · rw [List.map_map]
      exact hk.distinct

end Shared

/-! ### Artifacts -/

/-- The artifacts in a folder are copies of what was kept, under the signatures in their names. -/
def Derived (kept : List (String × Node)) (entries : List (String × Node)) : Prop :=
  ∀ name node, name ≠ documentName → entries.lookup name = some node → node.LinkFree ∧
    ∃ origin ∈ kept, node.contents = origin.2.contents ∧ Signature.IsDigest origin.1 ∧
      ∃ now n, name = numberedId (baseId origin.1 now) n

/-- Whatever a call leaves in the folder was there before or is the artifact that it keeps. -/
theorem Move.lookup_cases {call : Call} {answer : Answer}
    (hm : Move cache w entries call answer cache' entries') (hs : Sorted entries) {name : String}
    {node : Node} (hn : isDocumentName name = false) (hl : entries'.lookup name = some node) :
    entries.lookup name = some node ∨
      ∃ script invocation output expected entry, call = .store script invocation output expected ∧
        answer = .stored true ∧ name = entry.cacheId ∧
        Files.signature script invocation w = (.ok entry.signature, w) ∧
        Leads? w.root (absolute w output) ∧ cache.TakesIn w output entry node entries entries' := by
  have hne : name ≠ documentName := ne_documentName hn
  -- Eviction takes entries away and adds none.
  have hevict {cache : Cache} {between entries' : List (String × Node)}
      (he : Evicted cache between entries') (hl : entries'.lookup name = some node) :
      between.lookup name = some node := by
    rw [he name hn] at hl
    split at hl
    · exact hl
    · cases hl
  cases hm with
  | left _ hl' =>
      rcases hl' with rfl | ⟨id, -, hu⟩
      · exact .inl hl
      · rw [hu] at hl
        split at hl
        · cases hl
        · exact .inl hl
  | @kept script invocation output expected entry new _ hs' he hl' ht =>
      obtain ⟨between, hb, hev⟩ := ht.recorded
      have hbetween := hevict hev hl
      rw [hb name hn] at hbetween
      split at hbetween
      · cases hbetween
      · rw [lookup_setEntry hs] at hbetween
        split at hbetween
        · rename_i heq
          cases hbetween
          exact .inr ⟨script, invocation, output, expected, entry, rfl, rfl, heq, hs', hl', ht⟩
        · exact .inl hbetween
  | dropped _ _ _ hl' => exact .inl (hl' name hne ▸ hl)
  | evicted he => exact .inl (hevict he hl)
  | cleared hc => cases (hc name hne).symm.trans hl
  | updated change => exact .inl hl

theorem Derived.mono {kept kept' : List (String × Node)} (h : Derived kept entries)
    (hsub : kept ⊆ kept') : Derived kept' entries := by
  intro name node hn hl
  obtain ⟨hfree, origin, hmem, hrest⟩ := h name node hn hl
  exact ⟨hfree, origin, hsub hmem, hrest⟩

theorem Move.derived {call : Call} {answer : Answer} {kept : List (String × Node)}
    (hm : Move cache w entries call answer cache' entries') (hs : Sorted entries)
    (hc : Consistent shared entries' records) (hg : GivesTree ⟨cache, w⟩ call)
    (h : Derived kept entries) : Derived (kept ++ call.kept w answer) entries' := by
  intro name node hn hl
  have hid := (hc.names name node hl).resolve_left hn
  rcases hm.lookup_cases hs hid.not_document hl with
    hold | ⟨script, invocation, output, expected, entry, rfl, rfl, rfl, hsame, hleads, ht⟩
  · exact h.mono (List.subset_append_left _ _) name node hn hold
  · obtain ⟨_, _, hfound⟩ := hleads
    obtain ⟨loc, tree, hp⟩ := place?_unfollowed hfound
    obtain ⟨hfree, hout⟩ := hg loc tree hp
    have hcopy := ht.copies loc tree hp hout
    have hkept : Call.kept w (.store script invocation output expected) (.stored true) =
        [(entry.signature, tree)] := by
      rw [Call.kept, hsame, hp]
    obtain ⟨now, n, -, hname⟩ := ht.filed.id
    refine ⟨hcopy.linkFree hfree, (entry.signature, tree), ?_, hcopy.contents hfree,
      ht.filed.digest, now, n, hname⟩
    rw [hkept]
    simp

/-! ### Runs -/

/-- What holds through every run of caches that share a folder. -/
structure Site.Sound (dir : String) (entries : List (String × Node)) (s : Site) : Prop where
  shelf : Shelf dir entries s.world
  base : Shared entries []
  caches : ∀ cache ∈ s.caches, cache.directory = dir ∧ cache.store.root = dir ∧
    Shared entries cache.store.records
  derived : Derived s.kept entries

namespace Site

theorem Sound.stands {s : Site} (h : s.Sound dir entries) (hc : cache ∈ s.caches) :
    Stands (entries.lookup documentName).isSome cache entries s.world := by
  obtain ⟨hdir, hroot, hshared⟩ := h.caches cache hc
  exact ⟨hroot.trans hdir.symm, hdir ▸ h.shelf, hshared⟩

theorem Sound.step {s s' : Site} (h : s.Sound dir entries) (hs : Step dir s s') :
    ∃ entries', s'.Sound dir entries' := by
  cases hs with
  | @opened settings cache w hx hd =>
      obtain ⟨rfl, hroot, hshared⟩ := h.base.load h.shelf hx hd
      refine ⟨entries, h.shelf, h.base, fun c hc => ?_, h.derived⟩
      rcases List.mem_append.mp hc with hc | hc
      · exact h.caches c hc
      · rw [List.mem_singleton.mp hc]
        exact ⟨hd, hroot, hshared⟩
  | @call i cache cache' answer w call hi hg hx =>
      have hmem := List.mem_of_getElem? hi
      have hstands := h.stands hmem
      obtain ⟨answer', cache'', entries', w', hx', hs', hm⟩ := call.run_cases hstands
      cases hx.symm.trans hx'
      obtain ⟨hdir, hroot, -⟩ := h.caches cache hmem
      have hdir' : cache'.directory = dir := by
        rw [← hdir]
        cases hm <;> rfl
      have hsorted := hstands.sorted
      refine ⟨entries', hdir' ▸ hs'.shelf, (h.base.step hs'.consistent).2, fun c hc => ?_,
        hm.derived hsorted hs'.consistent hg h.derived⟩
      rcases List.mem_or_eq_of_mem_set hc with hc | rfl
      · obtain ⟨hd, hr, hshared⟩ := h.caches c hc
        exact ⟨hd, hr, (hshared.step hs'.consistent).2⟩
      · exact ⟨hdir', hs'.root_eq.trans hdir', (h.base.step hs'.consistent).1⟩
  | @elsewhere w hu =>
      refine ⟨entries, ?_, h.base, h.caches, h.derived⟩
      rcases h.shelf with ⟨hm, rfl⟩ | ⟨loc, ho⟩
      · exact .inl ⟨⟨hu.running, hm.normal, hu.missing hm.absent⟩, rfl⟩
      · obtain ⟨loc', hh⟩ := hu.holds loc entries ho.holds
        exact .inr ⟨loc', hu.running, ho.normal, hh⟩

theorem Run.sound {s : Site} (h₀ : Missing dir w) (h : Run dir ⟨[], [], w⟩ s) :
    ∃ entries, s.Sound dir entries := by
  induction h with
  | refl => exact ⟨[], .inl ⟨h₀, rfl⟩, .nil, nofun, nofun⟩
  | tail _ hstep ih =>
      obtain ⟨entries, hs⟩ := ih
      exact hs.step hstep

end Site

/-- Ids of signatures begin with their stems. -/
theorem stem_eq_of_numberedId {signature' : String} {now now' : Number} {n n' : Nat}
    (hd : Signature.IsDigest signature) (hd' : Signature.IsDigest signature')
    (h : numberedId (baseId signature now) n = numberedId (baseId signature' now') n') :
    stem signature = stem signature' := by
  have hfind {signature : String} (hd : Signature.IsDigest signature) (now : Number) (n : Nat) :
      (((numberedId (baseId signature now) n).toList.drop 6).take 16) = stem signature := by
    have hlength : (stem signature).length = 16 := by
      rw [stem, List.length_take, hd.length]
      rfl
    obtain ⟨rest, hrest⟩ : ∃ rest, (numberedId (baseId signature now) n).toList =
        "build_".toList ++ (stem signature ++ rest) := by
      rw [numberedId]
      split <;> simp [baseId, stem]
    rw [hrest, List.drop_append_of_le_length (by decide)]
    rw [show "build_".toList.drop 6 = [] from rfl, List.nil_append,
      List.take_append_of_le_length (by omega), List.take_of_length_le (by omega)]
  rw [← hfind hd now n, h, hfind hd']

/-- Whatever the caches that share a folder do, in any order, what one of them finds under a
signature is a copy of what a store call of one of them has kept under that signature, as long as
that shares its stem with no other signature under which something was kept. -/
theorem Site.Run.finds_kept {s : Site} (h₀ : Missing dir w) (h : Run dir ⟨[], [], w⟩ s)
    (hc : cache ∈ s.caches) {path : String}
    (hx : cache.lookupSignature signature s.world = (.ok (some path, cache'), w'))
    (hu : ∀ origin ∈ s.kept, stem origin.1 = stem signature → origin.1 = signature) :
    ∃ loc node tree, place? w'.root true (absolute w' path) = .ok (.found loc node) ∧
      (signature, tree) ∈ s.kept ∧ node.contents = tree.contents := by
  obtain ⟨entries, hs⟩ := h.sound h₀
  have hstands := hs.stands hc
  rcases lookupSignature_cases hstands signature with
    ⟨answer, ⟨w₁, hx₁, he⟩, ha⟩ | ⟨entry, entries', w₁, hx₁, -⟩
  · cases hx.symm.trans hx₁
    obtain ⟨entry, hg, rfl, hthere⟩ := ha path rfl
    obtain ⟨hmem, rfl⟩ := Records.mem_of_get? hg
    have hfiled := hstands.consistent.filed entry hmem
    have hname := hfiled.isId.isName
    rcases hstands.shelf with ⟨hm, rfl⟩ | ⟨loc, ho⟩
    · rw [hstands.records_eq_nil] at hmem
      cases hmem
    · rw [artifact, artifactPath_eq ho.normal (isStep_of_isName hname)] at hthere ⊢
      obtain ⟨node, hl⟩ := Option.ne_none_iff_exists'.mp (ho.lookup_of_exists? hname hthere)
      obtain ⟨hfree, origin, hin, hcontents, hd, now, n, hid⟩ :=
        hs.derived entry.cacheId node (ne_documentName hfiled.isId.not_document) hl
      obtain ⟨now', n', -, hid'⟩ := hfiled.id
      have hsame := hu origin hin (stem_eq_of_numberedId hd hfiled.digest (hid.symm.trans hid'))
      have ho' := ho.same he
      refine ⟨loc ++ [entry.cacheId], node, origin.2, ?_, hsame ▸ hin, hcontents⟩
      refine place?_child_found ho'.running.wellFormed ho'.normal ho'.holds hl true ?_
      rintro - target rfl
      cases hfree
  · cases hx.symm.trans hx₁

theorem Site.Run.finds_kept_built :
    Missing "/W/c" built ∧ ∃ s cache cache' path w', Site.Run "/W/c" ⟨[], [], built⟩ s ∧
      s.caches.length = 2 ∧ cache ∈ s.caches ∧
      cache.lookupSignature "785f08fa545ce748ed44576a938adc142382dd9f3a644ff024073a6d3aedf3a1"
        s.world = (.ok (some path, cache'), w') ∧
      (∀ origin ∈ s.kept, stem origin.1 =
        stem "785f08fa545ce748ed44576a938adc142382dd9f3a644ff024073a6d3aedf3a1" →
        origin.1 = "785f08fa545ce748ed44576a938adc142382dd9f3a644ff024073a6d3aedf3a1") ∧
      ∃ loc node tree, place? w'.root true (absolute w' path) = .ok (.found loc node) ∧
        ("785f08fa545ce748ed44576a938adc142382dd9f3a644ff024073a6d3aedf3a1", tree) ∈ s.kept ∧
        node.contents = tree.contents := by
  let signature := "785f08fa545ce748ed44576a938adc142382dd9f3a644ff024073a6d3aedf3a1"
  let first : Cache := ⟨⟨true, "/W/c", 1, 30⟩, ⟨"/W/c", []⟩⟩
  let store : Call := .store "/W/a.py" "" "/W/o" none
  have hmissing : Missing "/W/c" built := by
    have hx : (exists? "/W/c" built).1.toOption = some false := by decide +kernel
    refine ⟨World.start_running (by decide) ⟨_, rfl⟩, ?_, not_leads?_of_exists? hx⟩
    exact (Path.resolve_isNormal "/" "/W/c").resolve_left (by decide)
  have hopen : load ⟨true, "/W/c", 1, 30⟩ built = (.ok first, built) :=
    load_absent hmissing.running (by decide +kernel) hmissing.absent
  obtain ⟨⟨cache, w⟩, hstore, hcache, hclock⟩ := store_built
  -- The lookup is not run: the artifact of a record in its time is found.
  obtain ⟨entries, hstands, hexact⟩ := Run.inventory starts_built
    (.single (.call store givesTree_built hstore))
  have hmem' : builtEntry ∈ cache.store.records := by
    rw [show cache = _ from hcache]
    exact List.mem_singleton_self _
  have henabled : cache.settings.enabled = true := by rw [show cache = _ from hcache]
  have hexpired : cache.isExpired w.clock builtEntry = false := by
    rw [show cache = _ from hcache, show w.clock = _ from hclock]
    decide +kernel
  obtain ⟨w', hlookup, -⟩ := lookupSignature_found hstands hexact hmem' henabled hexpired
  let s : Site := ⟨[first, first].set 0 cache, [] ++ store.kept built (.stored true), w⟩
  have hfirst : Site.Step "/W/c" ⟨[], [], built⟩ ⟨[] ++ [first], [], built⟩ := .opened hopen rfl
  have hsecond : Site.Step "/W/c" ⟨[first], [], built⟩ ⟨[first] ++ [first], [], built⟩ :=
    .opened hopen rfl
  have hthird : Site.Step "/W/c" ⟨[first, first], [], built⟩ s :=
    .call store rfl givesTree_built hstore
  have hrun : Site.Run "/W/c" ⟨[], [], built⟩ s :=
    ((Relation.ReflTransGen.single hfirst).tail hsecond).tail hthird
  have hmem : cache ∈ s.caches := List.mem_cons_self
  have hu : ∀ origin ∈ s.kept, stem origin.1 = stem signature → origin.1 = signature := by
    intro origin horigin _
    have hsame := Call.signature_of_mem_kept (List.mem_append.mp horigin |>.resolve_left nofun)
    rw [signature_built] at hsame
    exact (Except.ok.inj hsame).symm
  exact ⟨hmissing, s, cache, cache, _, w', hrun, rfl, hmem, hlookup, hu,
    Site.Run.finds_kept hmissing hrun hmem hlookup hu⟩

end ScriptPack.Cache

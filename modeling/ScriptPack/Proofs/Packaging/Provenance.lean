import ScriptPack.Proofs.Cache.Separation
import ScriptPack.Proofs.Packaging.Phases

/-!
Where a result from the cache comes from. Through every run of packaging calls that share a cache,
each artifact is what an earlier call has built and delivered, from a script and arguments that had
then the signature under which the artifact is found, before the engine ran as well as after.
-/

namespace ScriptPack.Packaging

open Effect Lookup Cache

/-! ### What a signature is made of -/

/-- What a cache can tell builds apart by. -/
structure Source where
  /-- The digest of the script. -/
  digest : String
  /-- The time of its last modification, in seconds. -/
  modified : Number
  /-- The arguments as one text. -/
  invocation : String
  deriving DecidableEq

namespace Source

/-- The text whose digest is the signature. -/
def text (source : Source) : String :=
  source.digest ++ ":" ++ source.modified.text ++ ":" ++ source.invocation

def signature (source : Source) : String := sha256 (Bytes.ofText source.text)

/-- The parts of a source can be told apart in its text. -/
structure Plain (source : Source) : Prop where
  digest : ':' ∉ source.digest.toList
  modified : source.modified.IsRounded

theorem text_injective {a b : Source} (ha : a.Plain) (hb : b.Plain) (h : a.text = b.text) :
    a = b := by
  have hlist (source : Source) : source.text.toList = source.digest.toList ++
      ':' :: (source.modified.text.toList ++ ':' :: source.invocation.toList) := by
    simp [text]
  have htext := congrArg String.toList h
  rw [hlist, hlist] at htext
  obtain ⟨hdigest, hmodified, hinvocation⟩ :=
    Signature.parts_inj ha.digest hb.digest ha.modified hb.modified htext
  obtain ⟨digest, modified, invocation⟩ := a
  obtain rfl : digest = b.digest := hdigest
  obtain rfl : modified = b.modified := hmodified
  obtain rfl : invocation = b.invocation := hinvocation
  rfl

end Source

/-- What a request is built from in a world, if the script can be read. -/
def Request.source? (request : Request) (w : World) : Option Source :=
  match (Files.read request.scriptPath w).1, (Files.modified request.scriptPath w).1 with
  | .ok content, .ok stamp =>
    some ⟨Signature.digestOf content, stamp.milliseconds / 1000, request.invocation⟩
  | _, _ => none

variable {w w' : World} {request : Request} {engine : Engine} {signature : String}

theorem Request.plain_of_source? {source : Source} (h : request.source? w = some source) :
    source.Plain := by
  rw [source?] at h
  split at h
  · cases h
    refine ⟨fun hc => ?_, Number.isRounded_div _ _⟩
    exact absurd ((Signature.isDigest_digest _).digits ':' hc) (by decide)
  · cases h

theorem Request.source?_of_signature
    (h : Files.signature request.scriptPath request.invocation w = (.ok signature, w)) :
    ∃ source, request.source? w = some source ∧ source.signature = signature := by
  rcases Files.signature_cases request.scriptPath request.invocation w with
    ⟨content, stamp, hr, hm, hs⟩ | ⟨failure, hs⟩
  · obtain rfl : signature = Signature.of content stamp request.invocation :=
      Except.ok.inj (congrArg Prod.fst (h.symm.trans hs))
    refine ⟨⟨Signature.digestOf content, stamp.milliseconds / 1000, request.invocation⟩, ?_, rfl⟩
    rw [source?, hr, hm]
  · cases congrArg Prod.fst (h.symm.trans hs)

/-! ### Sessions -/

/-- A call that has kept what its engine made. -/
structure Build where
  request : Request
  /-- The path that the engine returned. -/
  produced : String
  /-- The world at the beginning of the call, before the engine was run. -/
  before : World
  /-- The world in which the result was kept, after it was delivered. -/
  after : World

/-- What a call with a result adds to the builds. -/
def newBuilds (engine : Engine) (request : Request) (tools : Tools) (w : World) :
    Except Failure Result → List Build
  | .ok result =>
    match produce engine request tools w with
    | (.ok (.built _ _ produced, _), delivered) =>
      if result.stored then [⟨request, produced, w, delivered⟩] else []
    | _ => []
  | .error _ => []

/-- A call of which the engine and the deliveries change nothing in a folder, and of which a result
is a tree without links that does not contain the folder. -/
structure Quiet (dir : String) (engine : Engine) (request : Request) (tools : Tools) (w : World) :
    Prop where
  found : ∀ signature artifact tools' w₁,
    seek request tools w = (.ok (signature, some artifact, tools'), w₁) →
    Spares dir (deliver artifact request.outputDir) w₁
  built : ∀ signature modules tools' w₁,
    prepare request tools w = (.ok (some (signature, modules), tools'), w₁) →
    Spares dir (engine (request.build modules)) w₁
  delivered : ∀ signature modules tools' w₁ produced w₂,
    prepare request tools w = (.ok (some (signature, modules), tools'), w₁) →
    engine (request.build modules) w₁ = (.ok produced, w₂) →
    Spares dir (deliver produced request.outputDir) w₂
  tree : ∀ signature modules produced tools' w₁,
    produce engine request tools w = (.ok (.built signature modules produced, tools'), w₁) →
    ∀ loc node, place? w₁.root false (absolute w₁ produced) = .ok (.found loc node) →
    node.LinkFree ∧ ¬loc <+: folderLocation w₁.root dir

/-- A cache, what has been built and kept with it, and the world. -/
structure Session where
  cache : Cache
  builds : List Build
  world : World

/-- One step of a session: a packaging call, or a change outside of the folder of the cache. -/
inductive Session.Step : Session → Session → Prop
  | packaged {s : Session} {engine : Engine} {request : Request}
      {discoverer discoverer' : Option Discoverer} {result : Except Failure Result}
      {cache : Cache} {w : World}
      (hq : Quiet s.cache.directory engine request ⟨some s.cache, discoverer⟩ s.world)
      (h : package engine request ⟨some s.cache, discoverer⟩ s.world =
        (.ok (result, ⟨some cache, discoverer'⟩), w)) :
      Step s ⟨cache,
        s.builds ++ newBuilds engine request ⟨some s.cache, discoverer⟩ s.world result, w⟩
  | elsewhere {s : Session} {w : World} (h : Untouched s.cache.directory s.world w) :
      Step s ⟨s.cache, s.builds, w⟩

abbrev Session.Run : Session → Session → Prop := Relation.ReflTransGen Session.Step

/-- The artifact of an entry has the contents of what a build returned when that was kept, and the
signature of the entry was that of the script before and after. -/
structure Build.Makes (build : Build) (entry : Entry) (node : Node) : Prop where
  tree : ∃ loc tree, place? build.after.root false (absolute build.after build.produced) =
    .ok (.found loc tree) ∧ node.contents = tree.contents
  before : Files.signature build.request.scriptPath build.request.invocation build.before =
    (.ok entry.signature, build.before)
  after : Files.signature build.request.scriptPath build.request.invocation build.after =
    (.ok entry.signature, build.after)

variable {cache : Cache} {entries entries' : List (String × Node)} {made : Entry → Node → Prop}

/-- Looking an artifact up. As long as all artifacts are there, no record is dropped; what is found
is the artifact of a record with the signature. -/
theorem seek_cases (hs : cache.Stands false entries w) (h : Exact made entries cache.store.records)
    (request : Request) (discoverer : Option Discoverer) :
    ∃ signature artifact w₁,
      seek request ⟨some cache, discoverer⟩ w =
        (.ok (signature, artifact, ⟨some cache, discoverer⟩), w₁) ∧
      w.Evolves w.root w₁ ∧
      (∀ s ∈ signature, Files.signature request.scriptPath request.invocation w = (.ok s, w)) ∧
      ∀ path ∈ artifact, ∃ entry ∈ cache.store.records, signature = some entry.signature ∧
        path = cache.artifact entry := by
  obtain ⟨signature, ⟨w₁, hx, he⟩, hsignature⟩ := signature?_does cache discoverer request w
  have hs₁ := hs.same he
  cases signature with
  | none =>
      refine ⟨none, none, w₁, ?_, he, hsignature, nofun⟩
      rw [seek, bind_ok hx]
      rfl
  | some s =>
      rcases lookupSignature_cases hs₁ s with
        ⟨answer, ⟨w₂, hx₂, he₂⟩, ha⟩ | ⟨entry, entries', w₂, -, -, hg, hgone, -⟩
      · rw [he.root_eq] at he₂
        refine ⟨some s, answer, w₂, ?_, he.trans he₂, hsignature, fun path hp => ?_⟩
        · have hlookup : Tools.lookup ⟨some cache, discoverer⟩ (some s) w₁ =
              (.ok (answer, ⟨some cache, discoverer⟩), w₂) := bind_ok hx₂
          rw [seek, bind_ok hx, bind_ok hlookup]
          rfl
        · obtain ⟨entry, hg, rfl, -⟩ := ha path hp
          obtain ⟨hmem, rfl⟩ := Records.mem_of_get? hg
          exact ⟨entry, hmem, rfl, rfl⟩
      · cases hgone.symm.trans (h.exists? hs₁ (Records.mem_of_get? hg).1)

/-- What a quiet call comes to: nothing is kept and the cache is as before, or at the end the cache
is asked to keep what the engine has made, for the signature from the beginning. -/
theorem package_cases {discoverer : Option Discoverer} (hs : cache.Stands false entries w)
    (h : Exact made entries cache.store.records)
    (hq : Quiet cache.directory engine request ⟨some cache, discoverer⟩ w) :
    ∃ result cache' discoverer' w',
      package engine request ⟨some cache, discoverer⟩ w =
        (.ok (result, ⟨some cache', discoverer'⟩), w') ∧
      ((cache' = cache ∧ cache.Stands false entries w' ∧ ∀ r, result = .ok r → r.stored = false) ∨
        ∃ signature modules produced stored w₁,
          result = .ok ⟨false, request.outputDir, modules, stored⟩ ∧
          produce engine request ⟨some cache, discoverer⟩ w =
            (.ok (.built (some signature) modules produced, ⟨some cache, discoverer'⟩), w₁) ∧
          cache.Stands false entries w₁ ∧
          Files.signature request.scriptPath request.invocation w = (.ok signature, w) ∧
          cache.keep request.scriptPath request.invocation produced (some signature) w₁ =
            (.ok (stored, cache'), w')) := by
  obtain ⟨signature, artifact, w₁, hseek, he, hsignature, -⟩ := seek_cases hs h request discoverer
  obtain ⟨needed, discoverer', w₂, hprepare, hs₂, hneeded⟩ := prepare_spares hseek
    (fun path hp => hq.found signature path _ w₁ (hp ▸ hseek)) (hs.same he)
  have hproduce : produce engine request ⟨some cache, discoverer⟩ w =
      work engine request ⟨some cache, discoverer'⟩ needed w₂ := bind_ok hprepare
  have hend {outcome : Outcome} {w₃ : World}
      (hx : produce engine request ⟨some cache, discoverer⟩ w =
        (.ok (outcome, ⟨some cache, discoverer'⟩), w₃)) :
      package engine request ⟨some cache, discoverer⟩ w =
        settle request ⟨some cache, discoverer'⟩ outcome w₃ := by
    rw [package_eq]
    exact bind_ok hx
  cases needed with
  | none =>
      refine ⟨_, cache, discoverer', w₂, hend hproduce, .inl ⟨rfl, hs₂, fun r hr => ?_⟩⟩
      cases hr
      rfl
  | some build =>
      obtain ⟨signature', modules⟩ := build
      obtain rfl : signature' = signature := hneeded _ rfl
      obtain ⟨outcome, w₃, hwork, hs₃, ⟨failure, rfl⟩ | ⟨produced, rfl⟩⟩ := work_spares
        (hq.built signature' modules _ w₂ hprepare)
        (fun produced w₃ hx => hq.delivered signature' modules _ w₂ produced w₃ hprepare hx) hs₂
      · exact ⟨.error failure, cache, discoverer', w₃, hend (hproduce.trans hwork),
          .inl ⟨rfl, hs₃, nofun⟩⟩
      · have hbuilt := hproduce.trans hwork
        cases signature' with
        | none =>
            refine ⟨_, cache, discoverer', w₃, hend hbuilt, .inl ⟨rfl, hs₃, fun r hr => ?_⟩⟩
            cases hr
            rfl
        | some s =>
            obtain ⟨stored, cache', w₄, hx⟩ : ∃ stored cache' w₄,
                cache.keep request.scriptPath request.invocation produced (some s) w₃ =
                  (.ok (stored, cache'), w₄) := by
              rcases keep_cases hs₃ request.scriptPath request.invocation produced (some s) with
                ⟨_, w₄, hx, -⟩ | ⟨_, _, _, w₄, hx, -⟩
              · exact ⟨_, _, w₄, hx⟩
              · exact ⟨_, _, w₄, hx⟩
            have hkeep : Tools.keep ⟨some cache, discoverer'⟩ request (some s) produced w₃ =
                (.ok (stored, ⟨some cache', discoverer'⟩), w₄) := bind_ok hx
            exact ⟨_, cache', discoverer', w₄, (hend hbuilt).trans (bind_ok hkeep), .inr ⟨s, modules,
              produced, stored, w₃, rfl, hbuilt, hs₃, hsignature s rfl, hx⟩⟩

/-- Keeping what a build has returned. -/
theorem keep_exact {builds : List Build} {before after w' : World} {signature : String}
    {stored : Bool} {cache' : Cache} {produced : String} (hs : cache.Stands false entries after)
    (h : Exact (fun e node => ∃ build ∈ builds, build.Makes e node) entries cache.store.records)
    (hsignature : Files.signature request.scriptPath request.invocation before =
      (.ok signature, before))
    (htree : ∀ loc node, place? after.root false (absolute after produced) =
      .ok (.found loc node) → node.LinkFree ∧ ¬loc <+: folderLocation after.root cache.directory)
    (hx : cache.keep request.scriptPath request.invocation produced (some signature) after =
      (.ok (stored, cache'), w')) :
    ∃ entries', cache'.Stands false entries' w' ∧
      Exact (fun e node => ∃ build ∈ builds ++
        if stored then [⟨request, produced, before, after⟩] else [], build.Makes e node) entries'
          cache'.store.records := by
  rcases keep_cases hs request.scriptPath request.invocation produced (some signature) with
    ⟨entries', _, hx', hs', hl⟩ |
    ⟨entry, new, entries', _, hx', hs', hsame, hexpected, hleads, ht⟩
  · cases hx.symm.trans hx'
    refine ⟨entries', hs', ?_⟩
    simpa using h.leavesOut hl
  · cases hx.symm.trans hx'
    obtain rfl : signature = entry.signature := hexpected signature rfl
    obtain ⟨_, _, hfound⟩ := hleads
    obtain ⟨loc, tree, hp⟩ := place?_unfollowed hfound
    obtain ⟨hfree, hout⟩ := htree loc tree hp
    have hcopy := ht.copies loc tree hp hout
    have hmakes : Build.Makes ⟨request, produced, before, after⟩ entry new :=
      ⟨⟨loc, tree, hp, hcopy.contents hfree⟩, hsignature, hsame⟩
    refine ⟨entries', hs', ?_⟩
    refine ht.exact (h.mono fun e _ node ⟨build, hb, hm⟩ => ?_) hs.consistent hs.sorted
      (hcopy.linkFree hfree) ?_
    · exact ⟨build, List.mem_append_left _ hb, hm⟩
    · exact ⟨_, by simp, hmakes⟩

theorem newBuilds_of_not_stored {tools : Tools} {result : Except Failure Result}
    (h : ∀ r, result = .ok r → r.stored = false) : newBuilds engine request tools w result = [] := by
  cases result with
  | error failure => rfl
  | ok r =>
      rw [newBuilds, h r rfl]
      split <;> rfl

/-- A quiet call returns, and what it keeps is added to the builds. -/
theorem package_exact {builds : List Build} {discoverer : Option Discoverer}
    (hs : cache.Stands false entries w)
    (h : Exact (fun e node => ∃ build ∈ builds, build.Makes e node) entries cache.store.records)
    (hq : Quiet cache.directory engine request ⟨some cache, discoverer⟩ w) :
    ∃ result cache' discoverer' entries' w',
      package engine request ⟨some cache, discoverer⟩ w =
        (.ok (result, ⟨some cache', discoverer'⟩), w') ∧
      cache'.Stands false entries' w' ∧
      Exact (fun e node => ∃ build ∈ builds ++
        newBuilds engine request ⟨some cache, discoverer⟩ w result, build.Makes e node) entries'
          cache'.store.records := by
  obtain ⟨result, cache', discoverer', w', hx, hcases⟩ := package_cases hs h hq
  rcases hcases with ⟨rfl, hs', hnone⟩ |
    ⟨signature, modules, produced, stored, w₁, rfl, hproduce, hs₁, hsignature, hkeep⟩
  · refine ⟨result, cache', discoverer', entries, w', hx, hs', ?_⟩
    rw [newBuilds_of_not_stored hnone, List.append_nil]
    exact h
  · obtain ⟨entries', hs', hexact⟩ := keep_exact hs₁ h hsignature
      (hq.tree (some signature) modules produced _ w₁ hproduce) hkeep
    refine ⟨_, cache', discoverer', entries', w', hx, hs', ?_⟩
    rw [newBuilds, hproduce]
    exact hexact

/-- Through every session the artifacts are what was built. -/
theorem Session.Run.exact {settings : CacheSettings} {s₀ s : Session}
    (h₀ : Starts settings ⟨s₀.cache, s₀.world⟩) (h : Run s₀ s) :
    ∃ entries, s.cache.Stands false entries s.world ∧
      Exact (fun e node => ∃ build ∈ s.builds, build.Makes e node) entries
        s.cache.store.records := by
  induction h with
  | refl =>
      obtain ⟨w, hr, hl, ha⟩ := h₀
      have hs := load_missing hr hl ha
      refine ⟨[], hs, ?_⟩
      rw [hs.records_eq_nil]
      exact ⟨nofun, nofun⟩
  | @tail s s' _ hstep ih =>
      obtain ⟨entries, hs, hexact⟩ := ih
      cases hstep with
      | elsewhere hu => exact ⟨entries, hu.stands hs, hexact⟩
      | packaged hq hx =>
          obtain ⟨result, cache', discoverer', entries', w', hx', hs', hexact'⟩ :=
            package_exact hs hexact hq
          cases hx.symm.trans hx'
          exact ⟨entries', hs', hexact'⟩

/-- A call that reports a cached result has delivered the artifact that was found. -/
theorem delivered_of_cached {tools tools' : Tools} {result : Result}
    (hx : package engine request tools w = (.ok (.ok result, tools'), w'))
    (hc : result.cached = true) :
    ∃ signature artifact tools₁ w₁ w₂,
      seek request tools w = (.ok (signature, some artifact, tools₁), w₁) ∧
      deliver artifact request.outputDir w₁ = (.ok (), w₂) := by
  rw [package_eq] at hx
  obtain ⟨⟨outcome, tools₂⟩, w₃, hproduce, hsettle⟩ := bind_eq_ok hx
  cases outcome with
  | failed failure => cases hsettle
  | built signature modules produced =>
      obtain ⟨kept, w₄, -, hend⟩ := bind_eq_ok hsettle
      cases hend
      cases hc
  | cached =>
      obtain ⟨⟨needed, tools₃⟩, w₄, hprepare, hwork⟩ := bind_eq_ok hproduce
      cases needed with
      | some build =>
          obtain ⟨made, w₅, -, hend⟩ := bind_eq_ok hwork
          cases made with
          | error failure => cases hend
          | ok produced =>
              obtain ⟨_, w₆, -, hend⟩ := bind_eq_ok hend
              cases hend
      | none =>
          obtain ⟨⟨signature, artifact, tools₁⟩, w₁, hseek, hrest⟩ := bind_eq_ok hprepare
          obtain ⟨done, w₅, hfound, hrest⟩ := bind_eq_ok hrest
          cases done with
          | false =>
              obtain ⟨⟨modules, tools₄⟩, w₆, -, hend⟩ := bind_eq_ok hrest
              simp only at hend
              split at hend
              · obtain ⟨_, w₇, -, hend⟩ := bind_eq_ok hend
                cases hend
              · cases hend
          | true =>
              cases artifact with
              | none => cases hfound
              | some artifact =>
                  obtain ⟨delivery, w₂, hdeliver, hend⟩ := bind_eq_ok hfound
                  cases delivery with
                  | ok _ =>
                      exact ⟨signature, artifact, tools₁, w₁, w₂, hseek, eq_ok_of_attempt hdeliver⟩
                  | error failure =>
                      obtain ⟨_, w₆, -, hend⟩ := bind_eq_ok hend
                      cases hend

/-- A call that has something to keep has run the engine and delivered what that made. -/
theorem delivered_of_built {tools tools' : Tools} {modules : List String} {produced : String}
    {signature : Option String}
    (hx : produce engine request tools w = (.ok (.built signature modules produced, tools'), w')) :
    ∃ w₁ w₂ w₃, prepare request tools w = (.ok (some (signature, modules), tools'), w₁) ∧
      engine (request.build modules) w₁ = (.ok produced, w₂) ∧
      deliver produced request.outputDir w₂ = (.ok (), w₃) ∧ w₃.Evolves w₃.root w' := by
  obtain ⟨⟨needed, tools₁⟩, w₁, hprepare, hwork⟩ := bind_eq_ok hx
  cases needed with
  | none => cases hwork
  | some build =>
      obtain ⟨made, w₃, hmade, hend⟩ := bind_eq_ok hwork
      cases made with
      | error failure => cases hend
      | ok produced' =>
          obtain ⟨_, w₄, hlog, hend⟩ := bind_eq_ok hend
          cases hend
          obtain ⟨path, w₂, hengine, hrest⟩ := bind_eq_ok (eq_ok_of_attempt hmade)
          obtain ⟨_, w₅, hdeliver, hend⟩ := bind_eq_ok hrest
          cases hend
          obtain ⟨w₆, hlog', he⟩ := logFields_does .packaging "build delivered"
            [("outputDir", .string request.outputDir)] w₃
          cases hlog.symm.trans hlog'
          exact ⟨w₁, w₂, w₃, hprepare, hengine, hdeliver, he⟩

/-- Signatures of the same digest are made of the same text, as far as a source and the builds of a
session are concerned. -/
def NoCollision (source : Source) (builds : List Build) : Prop :=
  ∀ build ∈ builds, ∀ w ∈ [build.before, build.after], ∀ source' ∈ build.request.source? w,
    source'.signature = source.signature → source'.text = source.text

/-- A call that reports a cached result has delivered an artifact with the contents of what an
earlier call of the session has built and kept; and before the engine of that call was run as well
as after its result was delivered, the script had the digest and the time of modification that the
script of this call has now, and the arguments were the same text. -/
theorem Session.Run.provenance {settings : CacheSettings} {s₀ : State} {s : Session}
    (h₀ : Starts settings s₀) (h : Run ⟨s₀.cache, [], s₀.world⟩ s)
    {discoverer : Option Discoverer} {result : Result} {tools : Tools}
    (hx : package engine request ⟨some s.cache, discoverer⟩ s.world = (.ok (.ok result, tools), w))
    (hc : result.cached = true)
    (hcollision : ∀ source ∈ request.source? s.world, NoCollision source s.builds) :
    ∃ signature artifact tools₁ w₁ w₂ loc node,
      seek request ⟨some s.cache, discoverer⟩ s.world =
        (.ok (signature, some artifact, tools₁), w₁) ∧
      deliver artifact request.outputDir w₁ = (.ok (), w₂) ∧
      place? w₁.root true (absolute w₁ artifact) = .ok (.found loc node) ∧
      ∃ build ∈ s.builds, (∃ loc' tree, place? build.after.root false
          (absolute build.after build.produced) = .ok (.found loc' tree) ∧
          node.contents = tree.contents) ∧
        ∃ source, request.source? s.world = some source ∧
          build.request.source? build.before = some source ∧
          build.request.source? build.after = some source := by
  obtain ⟨entries, hs, hexact⟩ := h.exact (show Starts settings ⟨s₀.cache, s₀.world⟩ from h₀)
  obtain ⟨signature, artifact, tools₁, w₁, w₂, hseek, hdeliver⟩ := delivered_of_cached hx hc
  obtain ⟨signature', artifact', w₁', hseek', he, hsignature, hentry⟩ :=
    seek_cases hs hexact request discoverer
  cases hseek.symm.trans hseek'
  obtain ⟨entry, hmem, rfl, rfl⟩ := hentry artifact rfl
  obtain ⟨node, hl, hfree, -, build, hbuild, hmakes⟩ := hexact.stored entry hmem
  obtain ⟨source, hsource, hsame⟩ := request.source?_of_signature (hsignature _ rfl)
  -- The signature of the build is that of the source, so that the build is from the same source.
  have halike {w : World} (hw : w ∈ [build.before, build.after])
      (hx : Files.signature build.request.scriptPath build.request.invocation w =
        (.ok entry.signature, w)) : build.request.source? w = some source := by
    obtain ⟨source', hsource', hsame'⟩ := build.request.source?_of_signature hx
    have htext := hcollision source hsource build hbuild w hw source' hsource'
      (hsame'.trans hsame.symm)
    rw [hsource', Source.text_injective (build.request.plain_of_source? hsource')
      (request.plain_of_source? hsource) htext]
  have hid := (hs.consistent.filed entry hmem).isId
  rcases hs.shelf with ⟨-, rfl⟩ | ⟨loc, ho⟩
  · cases hl
  · have ho₁ := ho.same he
    have hplace : place? w₁.root true (absolute w₁ (s.cache.artifact entry)) =
        .ok (.found (loc ++ [entry.cacheId]) node) := by
      rw [artifact, artifactPath_eq ho.normal (isStep_of_isName hid.isName)]
      refine Files.place?_child_found ho₁.running.wellFormed ho₁.normal ho₁.holds hl true ?_
      rintro - target rfl
      cases hfree
    exact ⟨_, _, _, w₁, w₂, _, node, hseek, hdeliver, hplace, build, hbuild, hmakes.tree, source,
      hsource, halike (by simp) hmakes.before, halike (by simp) hmakes.after⟩

/-- A call during which the source stays what it is adds no collision with that. -/
theorem noCollision_newBuilds {source : Source} {outcome : Outcome} {tools tools' : Tools}
    {result : Except Failure Result}
    (hx : produce engine request tools w = (.ok (outcome, tools'), w'))
    (hw : request.source? w = some source) (hw' : request.source? w' = some source) :
    NoCollision source (newBuilds engine request tools w result) := by
  rintro build hbuild w₀ hmem source' hsource -
  cases result with
  | error failure => cases hbuild
  | ok result =>
      rw [newBuilds, hx] at hbuild
      split at hbuild
      · cases ‹_ = _›
        split at hbuild
        · cases List.mem_singleton.mp hbuild
          rcases List.mem_pair.mp hmem with rfl | rfl
          · rw [Option.some.inj (hw.symm.trans hsource)]
          · rw [Option.some.inj (hw'.symm.trans hsource)]
        · cases hbuild
      · cases hbuild

theorem Request.source?_eq {content : Bytes} {stamp : Stamp}
    (hr : (Files.read request.scriptPath w).1.toOption = some content)
    (hm : (Files.modified request.scriptPath w).1.toOption = some stamp) :
    request.source? w =
      some ⟨Signature.digestOf content, stamp.milliseconds / 1000, request.invocation⟩ := by
  rw [source?, eq_ok_of_toOption hr, eq_ok_of_toOption hm]

/-- A request for the script of `built`. -/
def plainRequest : Request := ⟨"/W/a.py", [], "/W/d", "/W/p"⟩

/-- An engine that returns what is there already. -/
def plainEngine : Engine := fun _ => return "/W/o"

/-- The files of `built` after `/W/o` is delivered to `/W/p`. -/
def deliveredRoot : Node := .folder [("W", .folder
  [("a.py", .file [112] ⟨1700000000, 0⟩), ("o", .folder [("x", .file [1, 2, 3] ⟨0, 0⟩)]),
   ("p", .folder [("x", .file [1, 2, 3] ⟨1700000000, 0⟩)])])]

/-- Before the engine the files are those of `built`, and afterwards the result is delivered. -/
theorem prepare_built : ∃ signature tools w₁ w₂,
    prepare plainRequest ⟨some ⟨⟨true, "/W/c", 1, 30⟩, ⟨"/W/c", []⟩⟩, none⟩ built =
      (.ok (some (signature, []), tools), w₁) ∧
    (w₁.Running ∧ w₁.root = built.root) ∧
    deliver "/W/o" "/W/p" w₁ = (.ok (), w₂) ∧
    (w₂.Running ∧ w₂.root = deliveredRoot) := by
  have hrunning {w : World} {root : Node} (hr : (World.start root).Running)
      (h : w.root = root ∧ w.stepsLeft = none ∧ w.workingDirectory = "/W" ∧ w.processId = "1") :
      w.Running ∧ w.root = root := by
    obtain ⟨rfl, hsteps, hdirectory, hprocess⟩ := h
    exact ⟨⟨hsteps, hr.wellFormed, hr.folder, hdirectory ▸ hr.current, hprocess ▸ hr.process⟩, rfl⟩
  obtain ⟨⟨⟨needed, tools⟩, w₁, w₂⟩, _, hx, hfacts⟩ := ok_of_toOption (do
      let prepared ← prepare plainRequest ⟨some ⟨⟨true, "/W/c", 1, 30⟩, ⟨"/W/c", []⟩⟩, none⟩
      let w₁ ← get
      deliver "/W/o" "/W/p"
      return (prepared, w₁, ← get))
    (fun r => decide (r.1.1.map (·.2) = some [] ∧
      (r.2.1.root = built.root ∧ r.2.1.stepsLeft = none ∧ r.2.1.workingDirectory = "/W" ∧
        r.2.1.processId = "1") ∧
      (r.2.2.root = deliveredRoot ∧ r.2.2.stepsLeft = none ∧ r.2.2.workingDirectory = "/W" ∧
        r.2.2.processId = "1"))) true built (by decide +kernel)
  obtain ⟨hneeded, hprocess₁, hprocess₂⟩ := of_decide_eq_true hfacts
  obtain ⟨prepared, w, hprepare, hx⟩ := bind_eq_ok hx
  obtain ⟨_, _, hget, hx⟩ := bind_eq_ok hx
  cases hget
  obtain ⟨_, w', hdeliver, hx⟩ := bind_eq_ok hx
  obtain ⟨_, _, hget, hx⟩ := bind_eq_ok hx
  cases hget
  cases hx
  obtain ⟨⟨signature, modules⟩, rfl, rfl⟩ := Option.map_eq_some_iff.mp hneeded
  exact ⟨signature, tools, w₁, w₂, hprepare,
    hrunning (World.start_running (by decide) ⟨_, rfl⟩) hprocess₁, hdeliver,
    hrunning (World.start_running (by decide) ⟨_, rfl⟩) hprocess₂⟩

/-- A call that builds from `built` and delivers changes nothing in `/W/c`. -/
theorem quiet_built : Quiet "/W/c" plainEngine plainRequest
    ⟨some ⟨⟨true, "/W/c", 1, 30⟩, ⟨"/W/c", []⟩⟩, none⟩ built := by
  have hgone : ¬Files.Leads? built.root "/W/c" := not_leads?_of_exists?
    (show (Files.exists? "/W/c" built).1.toOption = some false by decide +kernel)
  have hgone' : ¬Files.Leads? deliveredRoot "/W/c" := not_leads?_of_exists?
    (show (Files.exists? "/W/c" (.start deliveredRoot)).1.toOption = some false by
      decide +kernel)
  have hbuilt : built.Running := World.start_running (by decide) ⟨_, rfl⟩
  have huntouched {w w' : World} (hw : w.root = built.root) (hr : w'.Running)
      (h : ¬Files.Leads? w'.root "/W/c") : Untouched "/W/c" w w' := by
    refine ⟨hr, fun _ => h, fun loc entries hh => absurd ?_ hgone⟩
    rw [hw] at hh
    exact ⟨loc, _,
      (hh.leads hbuilt.wellFormed (by decide)).place?_eq (by decide) (by decide)⟩
  obtain ⟨signature₁, tools₁, w₁, w₂, hprepare, ⟨hr₁, hroot₁⟩, hdeliver, hr₂, hroot₂⟩ :=
    prepare_built
  have hs : Cache.Stands false ⟨⟨true, "/W/c", 1, 30⟩, ⟨"/W/c", []⟩⟩ [] built := by
    obtain ⟨w, hr, hload, ha⟩ := starts_built
    exact load_missing hr hload ha
  have hexact : Exact (fun _ _ => True) [] [] := ⟨nofun, nofun⟩
  refine ⟨fun signature artifact tools' w hseek => ?_, fun signature modules tools' w hp => ?_,
    fun signature modules tools' w produced w' hp he => ?_,
    fun signature modules produced tools' w hp loc node hplace => ?_⟩
  · -- There is nothing to be found yet.
    obtain ⟨signature', artifact', w', hseek', -, -, hentry⟩ :=
      seek_cases hs hexact plainRequest none
    cases hseek.symm.trans hseek'
    obtain ⟨entry, hmem, -⟩ := hentry artifact rfl
    cases hmem
  · cases hp.symm.trans hprepare
    exact ⟨nofun, huntouched hroot₁ hr₁ (hroot₁ ▸ hgone)⟩
  · cases hp.symm.trans hprepare
    cases he
    show Spares "/W/c" (deliver "/W/o" "/W/p") w₁
    rw [Spares, hdeliver]
    exact ⟨nofun, huntouched hroot₁ hr₂ (hroot₂ ▸ hgone')⟩
  · obtain ⟨w₃, w₄, w₅, hp, hengine, hdeliver', he⟩ := delivered_of_built hp
    cases hp.symm.trans hprepare
    cases hengine
    cases hdeliver.symm.trans hdeliver'
    have hroot : w.root = deliveredRoot := he.root_eq.trans hroot₂
    have habsolute : absolute w "/W/o" = "/W/o" := absolute_of_isAbsolute (by decide)
    rw [habsolute, hroot] at hplace
    have hlocation : (place? deliveredRoot false "/W/o").toOption.map Place.location =
        some ["W", "o"] := by decide +kernel
    have hout : ¬["W", "o"] <+: folderLocation deliveredRoot "/W/c" := by decide +kernel
    rw [hplace, Except.toOption, Option.map_some, Option.some.injEq, Place.location] at hlocation
    subst hlocation
    have hat : deliveredRoot.at? ["W", "o"] =
        some (.folder [("x", .file [1, 2, 3] ⟨0, 0⟩)]) := rfl
    cases hat.symm.trans (place?_found hplace)
    rw [hroot]
    refine ⟨.folder _ fun e hmem => ?_, hout⟩
    rw [List.mem_singleton.mp hmem]
    exact .file _ _

/-- The script of `built` is there with its time of modification. -/
def HasScript (w : World) : Prop :=
  (Files.read "/W/a.py" w).1.toOption = some [112] ∧
    (Files.modified "/W/a.py" w).1.toOption = some ⟨1700000000, 0⟩

instance (w : World) : Decidable (HasScript w) := inferInstanceAs (Decidable (_ ∧ _))

/-- A call that builds from `built` and keeps the result, and what is found then. -/
theorem package_built : ∃ signature artifact tools tools', ∃ s : Cache.State, ∃ w₁ w₂ w₃,
    produce plainEngine plainRequest ⟨some ⟨⟨true, "/W/c", 1, 30⟩, ⟨"/W/c", []⟩⟩, none⟩ built =
      (.ok (.built signature [] "/W/o", tools), w₁) ∧
    settle plainRequest tools (.built signature [] "/W/o") w₁ =
      (.ok (.ok ⟨false, "/W/p", [], true⟩, ⟨some s.cache, none⟩), s.world) ∧
    seek plainRequest ⟨some s.cache, none⟩ s.world =
      (.ok (signature, some artifact, tools'), w₂) ∧
    deliver artifact "/W/p" w₂ = (.ok (), w₃) ∧
    (HasScript built ∧ HasScript w₁ ∧ HasScript s.world) ∧
    s.cache.settings.enabled = true ∧ s.cache.store.records.map (fun e =>
      Number.less (s.world.clock - e.storedAt.milliseconds)
        (s.cache.settings.retentionDays * dayMilliseconds)) = [true] := by
  obtain ⟨⟨⟨outcome, tools⟩, w₁, ⟨result, cache, discoverer⟩, w₂, signature, artifact, tools'⟩, _,
    hx, hfacts⟩ := ok_of_toOption (do
      let made ← produce plainEngine plainRequest
        ⟨some ⟨⟨true, "/W/c", 1, 30⟩, ⟨"/W/c", []⟩⟩, none⟩
      let w₁ ← get
      let kept ← settle plainRequest made.2 made.1
      let w₂ ← get
      let found ← seek plainRequest kept.2
      deliver (found.2.1.getD "") "/W/p"
      return (made, w₁, kept, w₂, found))
    (fun r => decide (r.1.1 = .built r.2.2.2.2.1 [] "/W/o" ∧
      r.2.2.1.1.toOption = some ⟨false, "/W/p", [], true⟩ ∧ r.2.2.1.2.discoverer.isNone ∧
      r.2.2.1.2.cache.map (fun cache => (cache.settings.enabled, cache.store.records.map fun e =>
        Number.less (r.2.2.2.1.clock - e.storedAt.milliseconds)
          (cache.settings.retentionDays * dayMilliseconds))) = some (true, [true]) ∧
      r.2.2.2.2.2.1.isSome ∧ HasScript built ∧ HasScript r.2.1 ∧ HasScript r.2.2.2.1))
    true built (by decide +kernel)
  obtain ⟨hbuilt, hresult, hnone, hcache, hartifact, hscripts⟩ := of_decide_eq_true hfacts
  obtain ⟨artifact, rfl⟩ := Option.isSome_iff_exists.mp hartifact
  obtain ⟨cache, rfl, hrecords⟩ := Option.map_eq_some_iff.mp hcache
  obtain ⟨_, _, hproduce, hx⟩ := bind_eq_ok hx
  obtain ⟨_, _, hget, hx⟩ := bind_eq_ok hx
  cases hget
  obtain ⟨_, _, hsettle, hx⟩ := bind_eq_ok hx
  obtain ⟨_, _, hget, hx⟩ := bind_eq_ok hx
  cases hget
  obtain ⟨_, w₃, hseek, hx⟩ := bind_eq_ok hx
  obtain ⟨_, _, hdeliver, hx⟩ := bind_eq_ok hx
  cases hx
  obtain rfl : outcome = .built signature [] "/W/o" := hbuilt
  obtain rfl := eq_ok_of_toOption hresult
  obtain rfl := Option.isNone_iff_eq_none.mp hnone
  exact ⟨signature, artifact, tools, tools', ⟨cache, w₂⟩, w₁, w₃, _, hproduce, hsettle, hseek,
    hdeliver, hscripts, Prod.mk.inj hrecords⟩

/-- After a call that builds, a second one for the same script is answered from the cache. -/
theorem Session.Run.provenance_built :
    Starts ⟨true, "/W/c", 1, 30⟩ ⟨⟨⟨true, "/W/c", 1, 30⟩, ⟨"/W/c", []⟩⟩, built⟩ ∧
      ∃ s discoverer result tools w,
        Run ⟨⟨⟨true, "/W/c", 1, 30⟩, ⟨"/W/c", []⟩⟩, [], built⟩ s ∧
        package plainEngine plainRequest ⟨some s.cache, discoverer⟩ s.world =
          (.ok (.ok result, tools), w) ∧
        result.cached = true ∧
        (∀ source ∈ plainRequest.source? s.world, NoCollision source s.builds) ∧
        ∃ build ∈ s.builds, ∃ source, plainRequest.source? s.world = some source ∧
          build.request.source? build.before = some source ∧
          build.request.source? build.after = some source := by
  obtain ⟨signature, artifact, tools, tools', s, w₁, w₂, w₃, hproduce, hsettle, hseek, hdeliver,
    ⟨hbefore, hduring, hafter⟩, -⟩ := package_built
  let tools₀ : Tools := ⟨some ⟨⟨true, "/W/c", 1, 30⟩, ⟨"/W/c", []⟩⟩, none⟩
  let first : Except Failure Result := .ok ⟨false, "/W/p", [], true⟩
  let builds := newBuilds plainEngine plainRequest tools₀ built first
  have hfirst : package plainEngine plainRequest tools₀ built =
      (.ok (first, ⟨some s.cache, none⟩), s.world) := by
    rw [package_eq]
    exact (bind_ok hproduce).trans hsettle
  obtain ⟨w₄, hsecond⟩ := package_found hseek hdeliver
  have hrun : Run ⟨⟨⟨true, "/W/c", 1, 30⟩, ⟨"/W/c", []⟩⟩, [], built⟩
      ⟨s.cache, [] ++ builds, s.world⟩ := .single (.packaged quiet_built hfirst)
  have hsame {w : World} (h : HasScript w) :
      plainRequest.source? w = plainRequest.source? s.world :=
    (plainRequest.source?_eq h.1 h.2).trans (plainRequest.source?_eq hafter.1 hafter.2).symm
  have hcollision (source : Source) (hs : source ∈ plainRequest.source? s.world) :
      NoCollision source ([] ++ builds) := by
    rw [List.nil_append]
    exact noCollision_newBuilds hproduce ((hsame hbefore).trans hs) ((hsame hduring).trans hs)
  obtain ⟨_, _, _, _, _, _, _, -, -, -, build, hbuild, -, source, hsource⟩ :=
    Session.Run.provenance starts_built hrun (hsecond plainEngine) rfl hcollision
  exact ⟨starts_built, _, none, _, tools', w₄, hrun, hsecond plainEngine, rfl, hcollision, build,
    hbuild, source, hsource⟩

/-- What two engines return: `/W/d`, and `/W/e` with a folder in it that is called like the artifact
of the first one in a cache of the name `c`. -/
def nested : World := .start (.folder [("W", .folder
  [("a.py", .file [1] ⟨1700000000, 0⟩), ("d", .folder [("f", .file [1] ⟨0, 0⟩)]),
   ("e", .folder [("c", .folder [("build_22f3255fb665d2ad_1767225600", .folder
    [("f", .file [2] ⟨0, 0⟩)])])])])])

/-- An output directory that contains the folder of the cache can be delivered to so that an
artifact is overwritten: then what a later call finds is not what was built. -/
theorem Session.overwritten_by_delivery :
    Starts ⟨true, "/W/o/c", 1, 30⟩ ⟨⟨⟨true, "/W/o/c", 1, 30⟩, ⟨"/W/o/c", []⟩⟩, nested⟩ ∧
      ∃ signature artifact kept w₁ w₂ w₃ w₄ tools tools₁ tools₂ tools₃ tools₄,
        produce (fun _ => return "/W/d") ⟨"/W/a.py", [], "/W/d", "/W/o"⟩
          ⟨some ⟨⟨true, "/W/o/c", 1, 30⟩, ⟨"/W/o/c", []⟩⟩, none⟩ nested =
            (.ok (.built signature [] "/W/d", tools), kept) ∧
        settle ⟨"/W/a.py", [], "/W/d", "/W/o"⟩ tools (.built signature [] "/W/d") kept =
          (.ok (.ok ⟨false, "/W/o", [], true⟩, tools₁), w₁) ∧
        package (fun _ => return "/W/e") ⟨"/W/b.py", [], "/W/e", "/W/o"⟩ tools₁ w₁ =
          (.ok (.ok ⟨false, "/W/o", [], false⟩, tools₂), w₂) ∧
        seek ⟨"/W/a.py", [], "/W/d", "/W/p"⟩ tools₂ w₂ =
          (.ok (signature, some artifact, tools₃), w₃) ∧
        package (fun _ => return "/W/d") ⟨"/W/a.py", [], "/W/d", "/W/p"⟩ tools₂ w₂ =
          (.ok (.ok ⟨true, "/W/p", [], false⟩, tools₄), w₄) ∧
        (Files.read "/W/d/f" kept).1.toOption = some [1] ∧
        (Files.read (artifact ++ "/f") w₃).1.toOption = some [2] := by
  refine ⟨.of_absent (World.start_running (by decide) ⟨_, rfl⟩) (by decide +kernel)
    (by decide +kernel), ?_⟩
  obtain ⟨⟨⟨outcome, tools⟩, kept, ⟨first, tools₁⟩, ⟨second, tools₂⟩, ⟨signature, artifact, tools₃⟩,
    w₃⟩, _, hx, hfacts⟩ := ok_of_toOption (do
      let made ← produce (fun _ => return "/W/d") ⟨"/W/a.py", [], "/W/d", "/W/o"⟩
        ⟨some ⟨⟨true, "/W/o/c", 1, 30⟩, ⟨"/W/o/c", []⟩⟩, none⟩
      let kept ← get
      let first ← settle ⟨"/W/a.py", [], "/W/d", "/W/o"⟩ made.2 made.1
      let second ← package (fun _ => return "/W/e") ⟨"/W/b.py", [], "/W/e", "/W/o"⟩ first.2
      let found ← seek ⟨"/W/a.py", [], "/W/d", "/W/p"⟩ second.2
      let w₃ ← get
      deliver (found.2.1.getD "") "/W/p"
      return (made, kept, first, second, found, w₃))
    (fun r => decide (r.1.1 = .built r.2.2.2.2.1.1 [] "/W/d" ∧
      r.2.2.1.1.toOption = some ⟨false, "/W/o", [], true⟩ ∧
      r.2.2.2.1.1.toOption = some ⟨false, "/W/o", [], false⟩ ∧
      r.2.2.2.2.1.2.1.isSome ∧
      (Files.read "/W/d/f" r.2.1).1.toOption = some [1] ∧
      (Files.read (r.2.2.2.2.1.2.1.getD "" ++ "/f") r.2.2.2.2.2).1.toOption = some [2]))
    true nested (by decide +kernel)
  obtain ⟨hbuilt, hfirst, hsecond, hartifact, hkept, hfound⟩ := of_decide_eq_true hfacts
  obtain ⟨artifact, rfl⟩ := Option.isSome_iff_exists.mp hartifact
  obtain ⟨_, _, hproduce, hx⟩ := bind_eq_ok hx
  obtain ⟨_, _, hget, hx⟩ := bind_eq_ok hx
  cases hget
  obtain ⟨_, w₁, hsettle, hx⟩ := bind_eq_ok hx
  obtain ⟨_, w₂, hpackage, hx⟩ := bind_eq_ok hx
  obtain ⟨_, _, hseek, hx⟩ := bind_eq_ok hx
  obtain ⟨_, _, hget, hx⟩ := bind_eq_ok hx
  cases hget
  obtain ⟨_, _, hdeliver, hx⟩ := bind_eq_ok hx
  cases hx
  obtain rfl : outcome = .built signature [] "/W/d" := hbuilt
  obtain rfl := eq_ok_of_toOption hfirst
  obtain rfl := eq_ok_of_toOption hsecond
  obtain ⟨w₄, hpackage'⟩ := package_found hseek hdeliver
  exact ⟨signature, artifact, kept, w₁, w₂, w₃, w₄, tools, tools₁, tools₂, tools₃, tools₃, hproduce,
    hsettle, hpackage, hseek, hpackage' _, hkept, hfound⟩

end ScriptPack.Packaging

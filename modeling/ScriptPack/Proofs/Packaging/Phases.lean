import ScriptPack.Packaging.Package
import ScriptPack.Proofs.Discovery.Discoverer
import ScriptPack.Proofs.Cache.Inventory

/-!
The phases of packaging: what the cache has is looked up and delivered; or else the engine is run,
what it made is delivered, and then kept.
-/

namespace ScriptPack.Packaging

open Effect

/-- The signature of a request, and the artifact that the cache has for it. -/
def seek (request : Request) (tools : Tools) :
    Effect (Option String × Option String × Tools) := do
  let signature ← tools.signature? request
  let (artifact, tools) ← tools.lookup signature
  return (signature, artifact, tools)

/-- Delivers what the cache has, if there is anything; whether that worked is returned. -/
def deliverFound (request : Request) : Option String → Effect Bool
  | none => return false
  | some artifact => deliverCached request artifact

/-- What comes before the engine. If the engine is needed, the signature and the modules that go
into the build are returned. -/
def prepare (request : Request) (tools : Tools) :
    Effect (Option (Option String × List String) × Tools) := do
  let (signature, artifact, tools) ← seek request tools
  let delivered ← deliverFound request artifact
  if delivered then return (none, tools)
  else
    let (modules, tools) ← tools.discover request.scriptPath
    if !modules.isEmpty then
      log .packaging "adding hidden imports" [.array (modules.map .string)]
    return (some (signature, modules), tools)

/-- How a request can be met. -/
inductive Outcome
  | cached
  | failed (failure : Failure)
  | built (signature : Option String) (modules : List String) (produced : String)
  deriving DecidableEq

/-- Runs the engine, if it is needed, and delivers what it made. -/
def work (engine : Engine) (request : Request) (tools : Tools) :
    Option (Option String × List String) → Effect (Outcome × Tools)
  | none => return (.cached, tools)
  | some (signature, modules) => do
    match ← attempt (buildAndDeliver engine request modules) with
    | .error failure => return (.failed failure, tools)
    | .ok produced =>
      logFields .packaging "build delivered" [("outputDir", .string request.outputDir)]
      return (.built signature modules produced, tools)

/-- A call up to the point at which a result is kept. -/
def produce (engine : Engine) (request : Request) (tools : Tools) : Effect (Outcome × Tools) := do
  let (needed, tools) ← prepare request tools
  work engine request tools needed

/-- The end of a call, in which a result is kept. -/
def settle (request : Request) (tools : Tools) : Outcome → Effect (Except Failure Result × Tools)
  | .cached => return (.ok ⟨true, request.outputDir, [], false⟩, tools)
  | .failed failure => return (.error failure, tools)
  | .built signature modules produced => do
    let (stored, tools) ← tools.keep request signature produced
    return (.ok ⟨false, request.outputDir, modules, stored⟩, tools)

theorem package_eq (engine : Engine) (request : Request) (tools : Tools) :
    package engine request tools = (do
      let (outcome, tools) ← produce engine request tools
      settle request tools outcome) := by
  have hwork (signature : Option String) (modules : List String) (tools : Tools) : (do
      let result ← attempt (buildAndDeliver engine request modules)
      match result with
      | .error failure => return (.error failure, tools)
      | .ok produced => do
        logFields .packaging "build delivered" [("outputDir", .string request.outputDir)]
        let (stored, tools) ← tools.keep request signature produced
        return (.ok ⟨false, request.outputDir, modules, stored⟩, tools)) = (do
      let (outcome, tools) ← work engine request tools (some (signature, modules))
      settle request tools outcome) := by
    rw [work, bind_assoc]
    refine bind_congr fun result => ?_
    cases result with
    | error failure => rfl
    | ok produced =>
        simp only [bind_assoc, pure_bind]
        rfl
  have hfound (signature artifact : Option String) (tools : Tools) : (match artifact with
      | none => build engine request signature tools
      | some artifact => do
        if ← deliverCached request artifact then
          return (.ok ⟨true, request.outputDir, [], false⟩, tools)
        else build engine request signature tools) = (do
      let delivered ← deliverFound request artifact
      if delivered then return (.ok ⟨true, request.outputDir, [], false⟩, tools)
      else build engine request signature tools) := by
    cases artifact <;> rfl
  simp only [package, produce, prepare, seek, bind_assoc, pure_bind]
  refine bind_congr fun signature => bind_congr fun ⟨artifact, tools⟩ => ?_
  refine (hfound signature artifact tools).trans (bind_congr fun delivered => ?_)
  cases delivered with
  | true => rfl
  | false =>
      simp only [build, Bool.false_eq_true, if_false, bind_assoc]
      refine bind_congr fun ⟨modules, tools⟩ => ?_
      cases hempty : modules.isEmpty with
      | true =>
          simp only [Bool.not_true, Bool.false_eq_true, if_false, pure_bind]
          exact hwork signature modules tools
      | false =>
          simp only [Bool.not_false, if_true, bind_assoc, pure_bind]
          exact bind_congr fun _ => hwork signature modules tools

/-- What an engine is asked for. -/
def Request.build (request : Request) (modules : List String) : BuildRequest where
  scriptPath := request.scriptPath
  args := request.args ++ hiddenImportArgs modules
  distPath := request.distPath

variable {α : Type} {dir : String} {cache : Cache} {entries : List (String × Node)} {w : World}
  {request : Request} {engine : Engine} {shared : Bool}

/-! ### Calls that need no engine -/

variable {tools tools' : Tools} {w₁ w₂ : World} {signature : Option String} {artifact : String}

/-- A call that the cache could meet. -/
theorem package_cached (hx : prepare request tools w = (.ok (none, tools'), w₁)) :
    package engine request tools w = (.ok (.ok ⟨true, request.outputDir, [], false⟩, tools'), w₁) := by
  rw [package_eq, produce, bind_assoc, bind_ok hx]
  rfl

/-- A call for which the cache has an artifact that can be delivered. -/
theorem package_found (hseek : seek request tools w = (.ok (signature, some artifact, tools'), w₁))
    (hdeliver : deliver artifact request.outputDir w₁ = (.ok (), w₂)) :
    ∃ w₃, ∀ engine, package engine request tools w =
      (.ok (.ok ⟨true, request.outputDir, [], false⟩, tools'), w₃) := by
  obtain ⟨w₃, hlog, -⟩ := logFields_does .packaging "using cached build, skipping engine"
    [("outputDir", .string request.outputDir)] w₂
  have hfound : deliverFound request (some artifact) w₁ = (.ok true, w₃) := by
    rw [deliverFound, deliverCached, bind_ok (attempt_ok hdeliver)]
    exact bind_ok hlog
  have hprepare : prepare request tools w = (.ok (none, tools'), w₃) := by
    rw [prepare, bind_ok hseek]
    exact bind_ok hfound
  exact ⟨w₃, fun _ => package_cached hprepare⟩

/-! ### Phases that leave a cache alone -/

/-- The operation ends and changes nothing in a folder. -/
def Spares (dir : String) (x : Effect α) (w : World) : Prop :=
  (x w).1 ≠ .error .interrupted ∧ Cache.Untouched dir w (x w).2

theorem Spares.cases {x : Effect α} (h : Spares cache.directory x w)
    (hs : cache.Stands shared entries w) :
    (∃ a w', x w = (.ok a, w') ∧ cache.Stands shared entries w') ∨
      ∃ failure w', x w = (.error (.failed failure), w') ∧ cache.Stands shared entries w' := by
  obtain ⟨hends, hu⟩ := h
  have hstands := hu.stands hs
  cases hx : x w with
  | mk result w' =>
      rw [hx] at hends hstands
      cases result with
      | ok a => exact .inl ⟨a, w', rfl, hstands⟩
      | error stop =>
          cases stop with
          | interrupted => exact absurd rfl hends
          | failed failure => exact .inr ⟨failure, w', rfl, hstands⟩

theorem signature?_does (cache : Cache) (discoverer : Option Discoverer) (request : Request)
    (w : World) :
    ∃ signature, Does (Tools.signature? ⟨some cache, discoverer⟩ request) w signature w.root ∧
      ∀ s ∈ signature, Files.signature request.scriptPath request.invocation w = (.ok s, w) := by
  by_cases henabled : cache.settings.enabled = true
  · simp only [Tools.signature?, henabled, if_true]
    rcases Cache.signature?_cases request.scriptPath request.invocation w with
      ⟨signature, hs, hx⟩ | hx
    · refine ⟨some signature, does_of_eq hx, fun s hmem => ?_⟩
      cases hmem
      exact hs
    · exact ⟨none, hx, nofun⟩
  · simp only [Tools.signature?, henabled]
    exact ⟨none, does_pure none w, nofun⟩

theorem deliverFound_spares {artifact : Option String}
    (hq : ∀ path ∈ artifact, Spares cache.directory (deliver path request.outputDir) w)
    (hs : cache.Stands shared entries w) :
    ∃ done w', deliverFound request artifact w = (.ok done, w') ∧
      cache.Stands shared entries w' := by
  cases artifact with
  | none => exact ⟨false, w, rfl, hs⟩
  | some path =>
      rcases (hq path rfl).cases hs with ⟨_, w₁, hx, hs₁⟩ | ⟨failure, w₁, hx, hs₁⟩
      · obtain ⟨w₂, hx₂, he⟩ := logFields_does .packaging "using cached build, skipping engine"
          [("outputDir", .string request.outputDir)] w₁
        refine ⟨true, w₂, ?_, hs₁.same he⟩
        rw [deliverFound, deliverCached, bind_ok (attempt_ok hx)]
        exact bind_ok hx₂
      · obtain ⟨w₂, hx₂, he⟩ := warn_does ⟨.cacheWriteFailed,
          "cannot deliver cached build: " ++ failure.message, "building from scratch instead"⟩ w₁
        refine ⟨false, w₂, ?_, hs₁.same he⟩
        rw [deliverFound, deliverCached, bind_ok (attempt_failed hx)]
        exact bind_ok hx₂

theorem discover_does (tools : Tools) (script : String) (w : World) :
    ∃ modules discoverer, Does (tools.discover script) w
      (modules, { tools with discoverer := discoverer }) w.root := by
  rw [Tools.discover]
  obtain ⟨cache, discoverer⟩ := tools
  cases discoverer with
  | none => exact ⟨[], none, does_pure _ w⟩
  | some discoverer =>
      obtain ⟨⟨modules, discoverer'⟩, w', hx, he⟩ := discoverer.discover_returns script w
      exact ⟨modules, some discoverer', w', bind_ok hx, he⟩

/-- Nothing before the engine is run changes the entries that the cache has after the lookup. -/
theorem prepare_spares {tools : Tools} {signature artifact : Option String}
    {discoverer : Option Discoverer} {w₁ : World}
    (hx : seek request tools w = (.ok (signature, artifact, ⟨some cache, discoverer⟩), w₁))
    (hq : ∀ path ∈ artifact, Spares cache.directory (deliver path request.outputDir) w₁)
    (hs : cache.Stands shared entries w₁) :
    ∃ needed discoverer' w₂,
      prepare request tools w = (.ok (needed, ⟨some cache, discoverer'⟩), w₂) ∧
      cache.Stands shared entries w₂ ∧ ∀ build ∈ needed, build.1 = signature := by
  obtain ⟨done, w₂, hx₂, hs₂⟩ := deliverFound_spares hq hs
  have hbegin : prepare request tools w = (do
      if done then return (none, (⟨some cache, discoverer⟩ : Tools))
      else
        let (modules, tools) ← Tools.discover ⟨some cache, discoverer⟩ request.scriptPath
        if !modules.isEmpty then
          log .packaging "adding hidden imports" [.array (modules.map .string)]
        return (some (signature, modules), tools)) w₂ := by
    rw [prepare, bind_ok hx]
    exact bind_ok hx₂
  cases done with
  | true => exact ⟨none, discoverer, w₂, hbegin, hs₂, nofun⟩
  | false =>
      obtain ⟨modules, discoverer', w₃, hx₃, he₃⟩ :=
        discover_does ⟨some cache, discoverer⟩ request.scriptPath w₂
      have hs₃ := hs₂.same he₃
      rw [if_neg (by decide), bind_ok hx₃] at hbegin
      simp only at hbegin
      have hsome : ∀ build ∈ some (signature, modules), build.1 = signature := fun build hb => by
        cases hb
        rfl
      split at hbegin
      · obtain ⟨_, w₄, hx₄, he₄⟩ := Returns.log .packaging "adding hidden imports"
          [.array (modules.map .string)] w₃
        exact ⟨some (signature, modules), discoverer', w₄, hbegin.trans (bind_ok hx₄),
          hs₃.same he₄, hsome⟩
      · exact ⟨some (signature, modules), discoverer', w₃, hbegin, hs₃, hsome⟩

/-- What the engine and the delivery of what it makes leave alone. -/
theorem work_spares {tools : Tools} {signature : Option String} {modules : List String}
    (he : Spares cache.directory (engine (request.build modules)) w)
    (hd : ∀ produced w₁, engine (request.build modules) w = (.ok produced, w₁) →
      Spares cache.directory (deliver produced request.outputDir) w₁)
    (hs : cache.Stands shared entries w) :
    ∃ outcome w', work engine request tools (some (signature, modules)) w =
        (.ok (outcome, tools), w') ∧ cache.Stands shared entries w' ∧
      ((∃ failure, outcome = .failed failure) ∨
        ∃ produced, outcome = .built signature modules produced) := by
  have hfails {w₁ : World} {failure : Failure}
      (hx : buildAndDeliver engine request modules w = (.error (.failed failure), w₁)) :
      work engine request tools (some (signature, modules)) w =
        (.ok (.failed failure, tools), w₁) := by
    rw [work, bind_ok (attempt_failed hx)]
    rfl
  rcases he.cases hs with ⟨produced, w₁, hx, hs₁⟩ | ⟨failure, w₁, hx, hs₁⟩
  · have hbuild : buildAndDeliver engine request modules w = (do
        deliver produced request.outputDir
        return produced) w₁ := bind_ok hx
    rcases (hd produced w₁ hx).cases hs₁ with ⟨_, w₂, hx₂, hs₂⟩ | ⟨failure, w₂, hx₂, hs₂⟩
    · obtain ⟨w₃, hx₃, he₃⟩ := logFields_does .packaging "build delivered"
        [("outputDir", .string request.outputDir)] w₂
      refine ⟨_, w₃, ?_, hs₂.same he₃, .inr ⟨produced, rfl⟩⟩
      rw [work, bind_ok (attempt_ok (hbuild.trans (bind_ok hx₂)))]
      exact bind_ok hx₃
    · exact ⟨_, w₂, hfails (hbuild.trans (bind_error hx₂)), hs₂, .inl ⟨failure, rfl⟩⟩
  · exact ⟨_, w₁, hfails (bind_error hx), hs₁, .inl ⟨failure, rfl⟩⟩

end ScriptPack.Packaging

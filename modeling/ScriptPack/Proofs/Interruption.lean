import ScriptPack.Proofs.Effect

/-!
Processes that are stopped. An operation is orderly if a number of steps does not change what it
does, only how far it comes: a process that may be stopped does the same as one that goes on, until
it is stopped. So what holds of the files wherever a process can be stopped can be shown operation by
operation, each from the world that the operations before it have left.
-/

namespace ScriptPack

/-- A world that differs at most in the lines that were written and the steps that are left. -/
def World.Like (w w' : World) : Prop := ∃ lines stepsLeft, w' = { w with lines, stepsLeft }

/-- The world in which the process is stopped after a number of steps. -/
def World.stopAfter (w : World) (n : Nat) : World := { w with stepsLeft := some n }

/-- A later world of the same process. -/
def World.Later (w w' : World) : Prop :=
  ∃ root lines stepsLeft, w' = { w with root, lines, stepsLeft }

namespace World

variable {w w' w'' : World}

theorem Like.refl (w : World) : w.Like w := ⟨w.lines, w.stepsLeft, rfl⟩

theorem Like.stopAfter (w : World) (n : Nat) : w.Like (w.stopAfter n) := ⟨w.lines, some n, rfl⟩

theorem Like.root_eq (h : w.Like w') : w'.root = w.root := by
  obtain ⟨lines, steps, rfl⟩ := h
  rfl

theorem Like.absolute_eq (h : w.Like w') (path : String) :
    Effect.absolute w' path = Effect.absolute w path := by
  obtain ⟨lines, steps, rfl⟩ := h
  rfl

theorem Evolves.like (h : w.Evolves w.root w') : w.Like w' := by
  obtain ⟨lines, rfl⟩ := h
  exact ⟨lines, w.stepsLeft, rfl⟩

theorem Later.refl (w : World) : w.Later w := ⟨w.root, w.lines, w.stepsLeft, rfl⟩

theorem Later.trans (h : w.Later w') (h' : w'.Later w'') : w.Later w'' := by
  obtain ⟨root, lines, steps, rfl⟩ := h
  obtain ⟨root', lines', steps', rfl⟩ := h'
  exact ⟨root', lines', steps', rfl⟩

theorem Later.evolves (h : w.Later w') (hs : w'.stepsLeft = w.stepsLeft) :
    w.Evolves w'.root w' := by
  obtain ⟨root, lines, steps, rfl⟩ := h
  obtain rfl : steps = w.stepsLeft := hs
  exact ⟨lines, rfl⟩

theorem Evolves.later {root : Node} (h : w.Evolves root w') : w.Later w' := by
  obtain ⟨lines, rfl⟩ := h
  exact ⟨root, lines, w.stepsLeft, rfl⟩

theorem Later.workingDirectory_eq (h : w.Later w') :
    w'.workingDirectory = w.workingDirectory := by
  obtain ⟨root, lines, steps, rfl⟩ := h
  rfl

theorem Later.processId_eq (h : w.Later w') : w'.processId = w.processId := by
  obtain ⟨root, lines, steps, rfl⟩ := h
  rfl

theorem Later.absolute_eq (h : w.Later w') (path : String) :
    Effect.absolute w' path = Effect.absolute w path := by
  obtain ⟨root, lines, steps, rfl⟩ := h
  rfl

end World

namespace Effect

theorem step_eq (w : World) : step w = match w.stepsLeft with
    | none => (.ok (), w)
    | some 0 => (.error .interrupted, w)
    | some (n + 1) => (.ok (), { w with stepsLeft := some n }) := by
  cases h : w.stepsLeft with
  | none => exact step_apply h
  | some n =>
      rw [step, bind_ok (get_apply w), h]
      cases n <;> rfl

variable {α β : Type} {x : Effect α} {f : α → Effect β} {w w' : World} {a : α}

/-- The operation is not stopped if the process goes on. If the process may be stopped, the operation
is either stopped or does the same. -/
structure Orderly (x : Effect α) : Prop where
  later : ∀ w : World, w.Later (x w).2
  ends : ∀ w : World, w.stepsLeft = none → (x w).1 ≠ .error .interrupted ∧ (x w).2.stepsLeft = none
  resumes : ∀ w w' : World, w.Like w' → w.stepsLeft = none →
    (x w').1 = .error .interrupted ∨ (x w').1 = (x w).1 ∧ (x w).2.Like (x w').2

/-- The two ways in which an orderly operation ends if the process goes on. -/
theorem Orderly.cases (h : Orderly x) (hs : w.stepsLeft = none) :
    (∃ a w', x w = (.ok a, w') ∧ w.Evolves w'.root w') ∨
      ∃ failure w', x w = (.error (.failed failure), w') ∧ w.Evolves w'.root w' := by
  obtain ⟨hends, hnone⟩ := h.ends w hs
  have hlater := (h.later w).evolves (hnone.trans hs.symm)
  cases hx : x w with
  | mk result w' =>
      rw [hx] at hends hlater
      rcases result with (failure | _) | a
      · exact .inr ⟨failure, w', rfl, hlater⟩
      · exact absurd rfl hends
      · exact .inl ⟨a, w', rfl, hlater⟩

/-- What an orderly operation does depends on the files, not on the lines before it. -/
theorem Orderly.again (h : Orderly x) (hs : w.stepsLeft = none) (he : w.Evolves w.root w') :
    (x w').1 = (x w).1 ∧ (x w').2.root = (x w).2.root := by
  have hends := (h.ends w' (he.stepsLeft_eq.trans hs)).1
  rcases h.resumes w w' he.like hs with hstop | ⟨hsame, hlike⟩
  · exact absurd hstop hends
  · exact ⟨hsame, hlike.root_eq⟩

namespace Orderly

theorem pure (a : α) : Orderly (pure a) :=
  ⟨fun w => .refl w, fun _ hs => ⟨nofun, hs⟩, fun _ _ h _ => .inr ⟨rfl, h⟩⟩

theorem fail (failure : Failure) : Orderly (fail failure : Effect α) :=
  ⟨fun w => .refl w, fun _ hs => ⟨nofun, hs⟩, fun _ _ h _ => .inr ⟨rfl, h⟩⟩

theorem failSystem (error : SystemError) : Orderly (failSystem error : Effect α) := fail _

theorem bind (hx : Orderly x) (hf : ∀ a, Orderly (f a)) : Orderly (x >>= f) := by
  have hstop {w w' : World} {stop : Stop} (h : x w = (.error stop, w')) :
      (x >>= f) w = (.error stop, w') := bind_error h
  constructor
  · intro w
    have hlater := hx.later w
    cases h : x w with
    | mk result w₁ =>
        rw [h] at hlater
        cases result with
        | error stop =>
            rw [hstop h]
            exact hlater
        | ok a =>
            rw [bind_ok h]
            exact hlater.trans ((hf a).later w₁)
  · intro w hs
    have hends := hx.ends w hs
    cases h : x w with
    | mk result w₁ =>
        rw [h] at hends
        cases result with
        | error stop =>
            rw [hstop h]
            exact ⟨fun heq => hends.1 (by cases heq; rfl), hends.2⟩
        | ok a =>
            rw [bind_ok h]
            exact (hf a).ends w₁ hends.2
  · intro w w' hw hs
    have hnone := (hx.ends w hs).2
    have hresumes := hx.resumes w w' hw hs
    cases h : x w with
    | mk result w₁ =>
        cases h' : x w' with
        | mk result' w₂ =>
            rw [h] at hnone hresumes
            rw [h'] at hresumes
            rcases hresumes with heq | ⟨heq, hlike⟩
            · obtain rfl : result' = .error .interrupted := heq
              rw [hstop h']
              exact .inl rfl
            · obtain rfl : result' = result := heq
              cases result' with
              | error stop =>
                  rw [hstop h, hstop h']
                  exact .inr ⟨rfl, hlike⟩
              | ok a =>
                  rw [bind_ok h, bind_ok h']
                  exact (hf a).resumes w₁ w₂ hlike hnone

theorem ite {p : Prop} [Decidable p] {y : Effect α} (hx : Orderly x) (hy : Orderly y) :
    Orderly (if p then x else y) := by
  split
  · exact hx
  · exact hy

/-- An operation with a look at the world, at more than its lines and steps. -/
theorem get_bind {f : World → Effect β} (hf : ∀ w, Orderly (f w))
    (hl : ∀ w lines stepsLeft, f { w with lines, stepsLeft } = f w) : Orderly (get >>= f) := by
  have hget (w : World) : (get >>= f) w = f w w := rfl
  constructor
  · intro w
    exact (hf w).later w
  · intro w hs
    exact (hf w).ends w hs
  · intro w w' hw hs
    have hsame : f w' = f w := by
      obtain ⟨lines, steps, rfl⟩ := hw
      exact hl w lines steps
    rw [hget, hget, hsame]
    exact (hf w).resumes w w' hw hs

theorem attempt (hx : Orderly x) : Orderly (attempt x) := by
  constructor
  · intro w
    have hlater := hx.later w
    unfold Effect.attempt
    cases h : x w with
    | mk result w₁ =>
        rw [h] at hlater
        rcases result with (failure | _) | a <;> exact hlater
  · intro w hs
    have hends := hx.ends w hs
    unfold Effect.attempt
    cases h : x w with
    | mk result w₁ =>
        rw [h] at hends
        rcases result with (failure | _) | a
        · exact ⟨nofun, hends.2⟩
        · exact absurd rfl hends.1
        · exact ⟨nofun, hends.2⟩
  · intro w w' hw hs
    have hends := hx.ends w hs
    have hresumes := hx.resumes w w' hw hs
    unfold Effect.attempt
    cases h : x w with
    | mk result w₁ =>
        cases h' : x w' with
        | mk result' w₂ =>
            rw [h] at hends hresumes
            rw [h'] at hresumes
            rcases hresumes with heq | ⟨heq, hlike⟩
            · obtain rfl : result' = .error .interrupted := heq
              exact .inl rfl
            · obtain rfl : result' = result := heq
              rcases result' with (failure | _) | a
              · exact .inr ⟨rfl, hlike⟩
              · exact absurd rfl hends.1
              · exact .inr ⟨rfl, hlike⟩

theorem lookup (follow : Bool) (path : String) : Orderly (lookup follow path) := by
  refine .get_bind (fun w => ?_) fun _ _ _ => rfl
  split
  · exact .pure _
  · exact .failSystem _

theorem changeRoot (g : Node → Node) : Orderly (changeRoot g) := by
  constructor
  · exact fun w => ⟨g w.root, w.lines, w.stepsLeft, rfl⟩
  · exact fun w hs => ⟨nofun, hs⟩
  · rintro w _ ⟨lines, steps, rfl⟩ -
    exact .inr ⟨rfl, lines, steps, rfl⟩

theorem step : Orderly step := by
  constructor
  · intro w
    rw [step_eq]
    split
    · exact .refl w
    · exact .refl w
    · exact ⟨w.root, w.lines, _, rfl⟩
  · intro w hs
    rw [step_eq, hs]
    exact ⟨nofun, hs⟩
  · rintro w _ ⟨lines, steps, rfl⟩ hs
    rw [step_eq, step_eq, hs]
    cases steps with
    | none => exact .inr ⟨rfl, lines, none, rfl⟩
    | some n =>
        cases n with
        | zero => exact .inl rfl
        | succ n => exact .inr ⟨rfl, lines, some n, rfl⟩

end Orderly

/-- An orderly operation that returns if the process goes on. -/
structure Answers (x : Effect α) : Prop extends Orderly x where
  returns : ∀ w : World, w.stepsLeft = none → ∃ a w', x w = (.ok a, w')

namespace Answers

theorem pure (a : α) : Answers (pure a) := ⟨.pure a, fun w _ => ⟨a, w, rfl⟩⟩

theorem bind (hx : Answers x) (hf : ∀ a, Answers (f a)) : Answers (x >>= f) := by
  refine ⟨hx.toOrderly.bind fun a => (hf a).toOrderly, fun w hs => ?_⟩
  obtain ⟨a, w₁, h⟩ := hx.returns w hs
  have hs₁ := (hx.ends w hs).2
  rw [h] at hs₁
  rw [bind_ok h]
  exact (hf a).returns w₁ hs₁

/-- A failure that is dealt with does not get out. -/
theorem attempt (hx : Orderly x) : Answers (attempt x) := by
  refine ⟨hx.attempt, fun w hs => ?_⟩
  rcases hx.cases hs with ⟨a, w', h, -⟩ | ⟨failure, w', h, -⟩
  · exact ⟨_, w', attempt_ok h⟩
  · exact ⟨_, w', attempt_failed h⟩

theorem ite {p : Prop} [Decidable p] {y : Effect α} (hx : Answers x) (hy : Answers y) :
    Answers (if p then x else y) := by
  split
  · exact hx
  · exact hy

theorem get_bind {f : World → Effect β} (hf : ∀ w, Answers (f w))
    (hl : ∀ w lines stepsLeft, f { w with lines, stepsLeft } = f w) : Answers (get >>= f) :=
  ⟨.get_bind (fun w => (hf w).toOrderly) hl, fun w hs => (hf w).returns w hs⟩

/-! ### Writing lines -/

theorem write (line : Line) : Answers (write line) := by
  refine ⟨⟨fun w => ⟨w.root, line :: w.lines, w.stepsLeft, rfl⟩, fun w hs => ⟨nofun, hs⟩, ?_⟩,
    fun w _ => ⟨(), _, rfl⟩⟩
  rintro w _ ⟨lines, steps, rfl⟩ -
  exact .inr ⟨rfl, line :: lines, steps, rfl⟩

theorem logTo (stream : Stream) (scope : Scope) (values : List Json) :
    Answers (logTo stream scope values) := by
  refine .get_bind (fun w => ?_) fun _ _ _ => rfl
  split
  · exact write _
  · exact .pure _

theorem logFields (scope : Scope) (message : String) (fields : List (String × Json)) :
    Answers (logFields scope message fields) := logTo _ _ _

theorem trace (level : Level) (event : String) (data : Option Json) :
    Answers (trace level event data) := by
  refine .get_bind (fun w => ?_) fun _ _ _ => rfl
  split
  · exact write _
  · exact .pure _

theorem traceInfo (event : String) (data : List (String × Json)) :
    Answers (traceInfo event data) := trace _ _ _

theorem warn (warning : Warning) : Answers (warn warning) :=
  .bind (logTo _ _ _) fun _ => trace _ _ _

theorem warnFailed (code : WarningCode) (what : String) (failure : Failure) :
    Answers (warnFailed code what failure) := warn _

end Answers

/-! ### What is done to the files, however an operation ends -/

/-- However the operation ends, the files before and after it are related. -/
def Moves (R : Node → Node → Prop) (x : Effect α) (w : World) : Prop := R w.root (x w).2.root

theorem step_root (w : World) : (step w).2.root = w.root := by
  rw [step_eq]
  split <;> rfl

namespace Moves

variable {R S : Node → Node → Prop}

theorem mono (h : Moves R x w) (hrs : ∀ root root', R root root' → S root root') : Moves S x w :=
  hrs _ _ h

theorem of_root_eq (h : (x w).2.root = w.root) (hr : R w.root w.root) : Moves R x w := by
  rw [Moves, h]
  exact hr

theorem pure (hr : R w.root w.root) (a : α) : Moves R (pure a) w := hr

theorem failSystem (hr : R w.root w.root) (error : SystemError) :
    Moves R (failSystem error : Effect α) w := hr

theorem bind [Trans R R R] (hx : Moves R x w)
    (hf : ∀ a w', x w = (.ok a, w') → Moves R (f a) w') : Moves R (x >>= f) w := by
  rw [Moves] at hx ⊢
  cases h : x w with
  | mk result w' =>
      rw [h] at hx
      cases result with
      | error stop =>
          rw [bind_error h]
          exact hx
      | ok a =>
          rw [bind_ok h]
          exact Trans.trans hx (hf a w' h)

theorem get_bind {f : World → Effect β} (h : Moves R (f w) w) : Moves R (get >>= f) w := h

theorem lookup_bind {follow : Bool} {path : String} {f : Place → Effect β} (hr : R w.root w.root)
    (hf : ∀ place, Lookup.place? w.root follow (absolute w path) = .ok place → Moves R (f place) w) :
    Moves R (lookup follow path >>= f) w := by
  cases hp : Lookup.place? w.root follow (absolute w path) with
  | ok place =>
      rw [Moves, bind_ok (lookup_ok hp)]
      exact hf place hp
  | error error =>
      rw [Moves, bind_error (lookup_error hp)]
      exact hr

end Moves

/-! ### Wherever the process is stopped -/

/-- Wherever the process is stopped during the operation, and after it, the files satisfy `P`. -/
def Passes (P : Node → Prop) (x : Effect α) (w : World) : Prop :=
  ∀ w', w.Like w' → P (x w').2.root

namespace Passes

variable {P Q : Node → Prop}

theorem mono (h : Passes P x w) (hpq : ∀ root, P root → Q root) : Passes Q x w :=
  fun w' hw => hpq _ (h w' hw)

/-- An operation that leaves the files alone. -/
theorem of_observes (h : Observes x) (hp : P w.root) : Passes P x w := by
  intro w' hw
  rcases h w' with ⟨a, w'', hx, he⟩ | ⟨failure, w'', hx, he⟩
  all_goals
    rw [hx, he.root_eq, hw.root_eq]
    exact hp

theorem bind (ho : Orderly x) (hs : w.stepsLeft = none) (h : Passes P x w)
    (hf : ∀ a w', x w = (.ok a, w') → Passes P (f a) w') : Passes P (x >>= f) w := by
  intro w' hw
  have hp := h w' hw
  have hresumes := ho.resumes w w' hw hs
  cases hx' : x w' with
  | mk result' w₂ =>
      rw [hx'] at hp hresumes
      cases result' with
      | error stop =>
          rw [bind_error hx']
          exact hp
      | ok a =>
          rw [bind_ok hx']
          obtain ⟨heq, hlike⟩ := hresumes.resolve_left nofun
          cases hx : x w with
          | mk result w₁ =>
              rw [hx] at heq hlike
              obtain rfl : .ok a = result := heq
              exact hf a w₁ hx w₂ hlike

theorem attempt (h : Passes P x w) : Passes P (attempt x) w := by
  intro w' hw
  have hp := h w' hw
  unfold Effect.attempt
  cases hx : x w' with
  | mk result w₁ =>
      rw [hx] at hp
      rcases result with (failure | _) | a <;> exact hp

theorem bind_observes (h : Passes P x w) (hf : ∀ a, Observes (f a)) : Passes P (x >>= f) w := by
  intro w' hw
  have hp := h w' hw
  cases hx : x w' with
  | mk result w₁ =>
      rw [hx] at hp
      cases result with
      | error stop =>
          rw [bind_error hx]
          exact hp
      | ok a =>
          rw [bind_ok hx]
          rcases hf a w₁ with ⟨b, w₂, hy, he⟩ | ⟨failure, w₂, hy, he⟩
          all_goals
            rw [hy, he.root_eq]
            exact hp

/-- It is enough to know what the operation does from the same files. -/
theorem congr {y : Effect α} (h : Passes P y w) (hxy : ∀ w', w.Like w' → x w' = y w') :
    Passes P x w := by
  intro w' hw
  rw [hxy w' hw]
  exact h w' hw

theorem get_bind {f : World → Effect β}
    (h : ∀ lines stepsLeft, f { w with lines, stepsLeft } = f w) (hf : Passes P (f w) w) :
    Passes P (get >>= f) w := by
  refine hf.congr ?_
  rintro _ ⟨lines, steps, rfl⟩
  exact congrFun (h lines steps) _

/-- An operation that begins with another one and goes on from there as it would begin there. -/
theorem begin {y : Effect Unit} (ho : Orderly y) (hs : w.stepsLeft = none) (hy : Passes P y w)
    (hdone : y w = (.ok (), w')) (h : Passes P x w')
    (hstop : ∀ w₁ w₂, y w₁ = (.error .interrupted, w₂) → x w₁ = (.error .interrupted, w₂))
    (hgo : ∀ w₁ w₂, y w₁ = (.ok (), w₂) → w'.Like w₂ → x w₁ = x w₂) : Passes P x w := by
  intro w₁ hw₁
  have hp := hy w₁ hw₁
  have hresumes := ho.resumes w w₁ hw₁ hs
  rw [hdone] at hresumes
  cases hx : y w₁ with
  | mk result w₂ =>
      rw [hx] at hp hresumes
      rcases hresumes with heq | ⟨heq, hlike⟩
      · obtain rfl : result = .error .interrupted := heq
        rw [hstop w₁ w₂ hx]
        exact hp
      · obtain rfl : result = .ok () := heq
        rw [hgo w₁ w₂ hx hlike]
        exact h w₂ hlike

end Passes

/-- Where the operation is stopped, it has changed nothing. -/
def Atomic (x : Effect α) : Prop := ∀ w : World, (x w).1 = .error .interrupted → (x w).2.root = w.root

namespace Atomic

variable {P : Node → Prop}

theorem of_observes (h : Observes x) : Atomic x := by
  intro w _
  rcases h w with ⟨a, w', hx, he⟩ | ⟨failure, w', hx, he⟩
  all_goals
    rw [hx]
    exact he.root_eq

theorem observe_bind (ho : Observes x) (hf : ∀ a, Atomic (f a)) : Atomic (x >>= f) := by
  intro w hstop
  rcases ho w with ⟨a, w', hx, he⟩ | ⟨failure, w', hx, he⟩
  · rw [bind_ok hx] at hstop ⊢
    rw [hf a w' hstop, he.root_eq]
  · rw [bind_error hx, he.root_eq]

theorem change (g : Node → Node) : Atomic (do step; changeRoot g) := by
  intro w hstop
  have hroot := step_root w
  cases hx : step w with
  | mk result w' =>
      rw [hx] at hroot
      cases result with
      | error stop =>
          rw [bind_error hx]
          exact hroot
      | ok a =>
          rw [bind_ok hx] at hstop
          cases hstop

/-- Such an operation is done as a whole or not at all. -/
theorem passes (ha : Atomic x) (ho : Orderly x) (hs : w.stepsLeft = none) (hp : P w.root)
    (hdone : P (x w).2.root) : Passes P x w := by
  intro w' hw
  rcases ho.resumes w w' hw hs with hstop | ⟨-, hlike⟩
  · rw [ha w' hstop, hw.root_eq]
    exact hp
  · rw [hlike.root_eq]
    exact hdone

end Atomic

end Effect

end ScriptPack

import ScriptPack.Diagnostics.Warning

/-!
Running operations one after the other. An operation that returns hands the world on to the next
one; what most operations do to the world is to change its files and to write lines. `Does` says
that an operation returns a value and leaves given files, `Fails` that it ends with a failure.
-/

namespace ScriptPack

/-- A later world with the given files. Lines may have been written, all else is as before. -/
def World.Evolves (w : World) (root : Node) (w' : World) : Prop :=
  ∃ lines, w' = { w with root, lines }

namespace World.Evolves

variable {w w' w'' : World} {root root' : Node}

theorem refl (w : World) : w.Evolves w.root w := ⟨w.lines, rfl⟩

theorem trans (h : w.Evolves root w') (h' : w'.Evolves root' w'') : w.Evolves root' w'' := by
  obtain ⟨lines, rfl⟩ := h
  obtain ⟨lines', rfl⟩ := h'
  exact ⟨lines', rfl⟩

/-- Two worlds that differ from a third one only in their lines differ only in their lines. -/
theorem between (h : w.Evolves w.root w') (h' : w.Evolves w.root w'') :
    w'.Evolves w'.root w'' := by
  obtain ⟨lines, rfl⟩ := h
  obtain ⟨lines', rfl⟩ := h'
  exact ⟨lines', rfl⟩

theorem root_eq (h : w.Evolves root w') : w'.root = root := by
  obtain ⟨lines, rfl⟩ := h
  rfl

theorem clock_eq (h : w.Evolves root w') : w'.clock = w.clock := by
  obtain ⟨lines, rfl⟩ := h
  rfl

theorem stamp_eq (h : w.Evolves root w') : w'.stamp = w.stamp := by
  obtain ⟨lines, rfl⟩ := h
  rfl

theorem processId_eq (h : w.Evolves root w') : w'.processId = w.processId := by
  obtain ⟨lines, rfl⟩ := h
  rfl

theorem stepsLeft_eq (h : w.Evolves root w') : w'.stepsLeft = w.stepsLeft := by
  obtain ⟨lines, rfl⟩ := h
  rfl

theorem workingDirectory_eq (h : w.Evolves root w') :
    w'.workingDirectory = w.workingDirectory := by
  obtain ⟨lines, rfl⟩ := h
  rfl

theorem absolute_eq (h : w.Evolves root w') (path : String) :
    Effect.absolute w' path = Effect.absolute w path := by
  simp only [Effect.absolute, h.workingDirectory_eq]

end World.Evolves

namespace Effect

variable {α β : Type} {x : Effect α} {f : α → Effect β} {w w' : World} {a : α} {b : β}
  {root root' : Node} {failure : Failure}

theorem bind_ok (h : x w = (.ok a, w')) : (x >>= f) w = f a w' := by
  simp only [bind, ExceptT.bind, ExceptT.mk, StateT.bind, h, ExceptT.bindCont]

theorem bind_error {stop : Stop} (h : x w = (.error stop, w')) :
    (x >>= f) w = (.error stop, w') := by
  simp only [bind, ExceptT.bind, ExceptT.mk, StateT.bind, h, ExceptT.bindCont]
  rfl

/-- An operation that returns has returned at each of its steps. -/
theorem bind_eq_ok {w'' : World} (h : (x >>= f) w = (.ok b, w'')) :
    ∃ a w', x w = (.ok a, w') ∧ f a w' = (.ok b, w'') := by
  cases hx : x w with
  | mk result w' =>
      cases result with
      | error stop =>
          rw [bind_error hx] at h
          cases h
      | ok a => exact ⟨a, w', rfl, (bind_ok hx).symm.trans h⟩

/-- What follows depends only on how the first operation ends. -/
theorem bind_congr_apply {y : Effect α} (h : x w = y w') : (x >>= f) w = (y >>= f) w' := by
  simp only [bind, ExceptT.bind, ExceptT.mk, StateT.bind, h]

@[simp] theorem pure_apply (a : α) (w : World) : (pure a : Effect α) w = (.ok a, w) := rfl

@[simp] theorem get_apply (w : World) : (get : Effect World) w = (.ok w, w) := rfl

@[simp] theorem modify_apply (f : World → World) (w : World) :
    (modify f : Effect Unit) w = (.ok (), f w) := rfl

@[simp] theorem fail_apply (failure : Failure) (w : World) :
    (fail failure : Effect α) w = (.error (.failed failure), w) := rfl

@[simp] theorem failSystem_apply (error : SystemError) (w : World) :
    (failSystem error : Effect α) w = (.error (.failed (.system error)), w) := rfl

theorem eq_ok_of_toOption {ε : Type} {result : Except ε α} (h : result.toOption = some a) :
    result = .ok a := by
  cases result with
  | error e => cases h
  | ok b => rw [Option.some.inj h]

/-- What an operation has returned if some part of its result can be computed. -/
theorem ok_of_toOption {γ : Type} (x : Effect α) (f : α → γ) (c : γ) (w : World)
    (h : (x w).1.toOption.map f = some c) : ∃ a w', x w = (.ok a, w') ∧ f a = c := by
  cases hx : x w with
  | mk result w' =>
      rw [hx] at h
      cases result with
      | error stop => cases h
      | ok a =>
          cases h
          exact ⟨a, w', rfl, rfl⟩

theorem attempt_ok (h : x w = (.ok a, w')) : attempt x w = (.ok (.ok a), w') := by
  simp only [attempt, h]

theorem eq_ok_of_attempt (h : attempt x w = (.ok (.ok a), w')) : x w = (.ok a, w') := by
  rw [attempt] at h
  split at h
  · rename_i hx
    cases h
    exact hx
  · cases h
  · cases h

theorem attempt_failed (h : x w = (.error (.failed failure), w')) :
    attempt x w = (.ok (.error failure), w') := by
  simp only [attempt, h]

/-- The operation returns a value and leaves the given files. -/
def Does (x : Effect α) (w : World) (a : α) (root : Node) : Prop :=
  ∃ w', x w = (.ok a, w') ∧ w.Evolves root w'

/-- The operation fails and leaves the given files. -/
def Fails (x : Effect α) (w : World) (failure : Failure) (root : Node) : Prop :=
  ∃ w', x w = (.error (.failed failure), w') ∧ w.Evolves root w'

theorem does_of_eq (h : x w = (.ok a, w)) : Does x w a w.root := ⟨w, h, .refl w⟩

theorem fails_of_eq (h : x w = (.error (.failed failure), w)) : Fails x w failure w.root :=
  ⟨w, h, .refl w⟩

theorem does_pure (a : α) (w : World) : Does (pure a) w a w.root := does_of_eq rfl

namespace Does

theorem bind (h : Does x w a root)
    (h' : ∀ w', w.Evolves root w' → Does (f a) w' b root') : Does (x >>= f) w b root' := by
  obtain ⟨w₁, hx, he⟩ := h
  obtain ⟨w₂, hf, he'⟩ := h' w₁ he
  exact ⟨w₂, (bind_ok hx).trans hf, he.trans he'⟩

theorem attempt (h : Does x w a root) : Does (attempt x) w (.ok a) root := by
  obtain ⟨w', hx, he⟩ := h
  exact ⟨w', attempt_ok hx, he⟩

end Does

namespace Fails

theorem bind (h : Fails x w failure root) : Fails (x >>= f) w failure root := by
  obtain ⟨w', hx, he⟩ := h
  exact ⟨w', bind_error hx, he⟩

theorem attempt (h : Fails x w failure root) :
    Does (attempt x) w (.error failure) root := by
  obtain ⟨w', hx, he⟩ := h
  exact ⟨w', attempt_failed hx, he⟩

end Fails

/-- A step of a process that is not about to be stopped. -/
theorem step_apply (h : w.stepsLeft = none) : step w = (.ok (), w) := by
  rw [step, bind_ok (get_apply w), h]
  rfl

theorem changeRoot_does (g : Node → Node) (w : World) :
    Does (changeRoot g) w () (g w.root) := ⟨_, rfl, w.lines, rfl⟩

theorem lookup_ok {follow : Bool} {path : String} {place : Place}
    (h : Lookup.place? w.root follow (absolute w path) = .ok place) :
    lookup follow path w = (.ok place, w) := by
  rw [lookup, bind_ok (get_apply w), h]
  rfl

theorem lookup_error {follow : Bool} {path : String} {error : SystemError}
    (h : Lookup.place? w.root follow (absolute w path) = .error error) :
    lookup follow path w = (.error (.failed (.system error)), w) := by
  rw [lookup, bind_ok (get_apply w), h]
  rfl

theorem absolute_of_isAbsolute {path : String} (h : Path.isAbsolute path = true) :
    absolute w path = path := by
  rw [absolute, h, Bool.or_true]
  rfl

theorem absolute_of_relative {path : String} (hne : path ≠ "")
    (h : Path.isAbsolute path = false) :
    absolute w path = w.workingDirectory ++ "/" ++ path := by
  rw [absolute, h, Bool.or_false, if_neg (by simpa using hne)]

theorem absolute_ne_empty {path : String} (h : path ≠ "") : absolute w path ≠ "" := by
  rw [absolute]
  split
  · exact h
  · simp

theorem absolute_congr (h : w'.workingDirectory = w.workingDirectory) (path : String) :
    absolute w' path = absolute w path := by
  rw [absolute, absolute, h]

/-! ### Writing lines -/

theorem write_does (line : Line) (w : World) : Does (write line) w () w.root :=
  ⟨_, rfl, line :: w.lines, rfl⟩

theorem logTo_does (stream : Stream) (scope : Scope) (values : List Json) (w : World) :
    Does (logTo stream scope values) w () w.root := by
  rw [logTo]
  refine (does_of_eq (get_apply w)).bind fun w' he => ?_
  rw [← he.root_eq]
  split
  · exact write_does _ w'
  · exact does_pure () w'

theorem logFields_does (scope : Scope) (message : String) (fields : List (String × Json))
    (w : World) : Does (logFields scope message fields) w () w.root :=
  logTo_does _ _ _ w

theorem trace_does (level : Level) (event : String) (data : Option Json) (w : World) :
    Does (trace level event data) w () w.root := by
  rw [trace]
  refine (does_of_eq (get_apply w)).bind fun w' he => ?_
  rw [← he.root_eq]
  split
  · exact write_does _ w'
  · exact does_pure () w'

theorem traceInfo_does (event : String) (data : List (String × Json)) (w : World) :
    Does (traceInfo event data) w () w.root := trace_does _ _ _ w

theorem warn_does (warning : Warning) (w : World) : Does (warn warning) w () w.root := by
  rw [warn]
  refine (logTo_does _ _ _ w).bind fun w' he => ?_
  rw [← he.root_eq]
  exact trace_does _ _ _ w'

theorem warnFailed_does (code : WarningCode) (what : String) (failure : Failure) (w : World) :
    Does (warnFailed code what failure) w () w.root := warn_does _ w

/-! ### Operations that leave the files alone -/

/-- Whatever the world, the operation ends with a value or a failure, and the files stay. -/
def Observes (x : Effect α) : Prop :=
  ∀ w, (∃ a, Does x w a w.root) ∨ ∃ failure, Fails x w failure w.root

namespace Observes

theorem of_same (h : ∀ w, (∃ a, x w = (.ok a, w)) ∨ ∃ failure, x w = (.error (.failed failure), w)) :
    Observes x := by
  intro w
  rcases h w with ⟨a, h⟩ | ⟨failure, h⟩
  · exact .inl ⟨a, does_of_eq h⟩
  · exact .inr ⟨failure, fails_of_eq h⟩

theorem of_does (h : ∀ w, ∃ a, Does x w a w.root) : Observes x := fun w => .inl (h w)

theorem pure (a : α) : Observes (pure a) := of_does fun w => ⟨a, does_pure a w⟩

theorem fail (failure : Failure) : Observes (fail failure : Effect α) :=
  fun w => .inr ⟨failure, fails_of_eq (fail_apply failure w)⟩

theorem failSystem (error : SystemError) : Observes (failSystem error : Effect α) := fail _

theorem get : Observes (get : Effect World) := of_does fun w => ⟨w, does_of_eq (get_apply w)⟩

theorem bind (hx : Observes x) (hf : ∀ a, Observes (f a)) : Observes (x >>= f) := by
  intro w
  rcases hx w with ⟨a, w₁, h₁, he₁⟩ | ⟨failure, h⟩
  · rcases hf a w₁ with ⟨b, w₂, h₂, he₂⟩ | ⟨failure, w₂, h₂, he₂⟩
    · rw [he₁.root_eq] at he₂
      exact .inl ⟨b, w₂, (bind_ok h₁).trans h₂, he₁.trans he₂⟩
    · rw [he₁.root_eq] at he₂
      exact .inr ⟨failure, w₂, (bind_ok h₁).trans h₂, he₁.trans he₂⟩
  · exact .inr ⟨failure, h.bind⟩

theorem attempt (hx : Observes x) : Observes (attempt x) := by
  refine of_does fun w => ?_
  rcases hx w with ⟨a, h⟩ | ⟨failure, h⟩
  · exact ⟨.ok a, h.attempt⟩
  · exact ⟨.error failure, h.attempt⟩

/-- An operation with a handler for its failure. -/
theorem attempt_does (hx : Observes x) (w : World) :
    ∃ result, Does (Effect.attempt x) w result w.root := by
  rcases hx w with ⟨a, h⟩ | ⟨failure, h⟩
  · exact ⟨.ok a, h.attempt⟩
  · exact ⟨.error failure, h.attempt⟩

theorem lookup (follow : Bool) (path : String) : Observes (lookup follow path) := by
  refine of_same fun w => ?_
  cases h : Lookup.place? w.root follow (absolute w path) with
  | ok place => exact .inl ⟨place, lookup_ok h⟩
  | error error => exact .inr ⟨.system error, lookup_error h⟩

end Observes

/-- Whatever the world, the operation returns, and the files stay. -/
def Returns (x : Effect α) : Prop := ∀ w, ∃ a, Does x w a w.root

namespace Returns

theorem observes (h : Returns x) : Observes x := .of_does h

theorem pure (a : α) : Returns (pure a) := fun w => ⟨a, does_pure a w⟩

theorem attempt (h : Observes x) : Returns (attempt x) := fun w => h.attempt_does w

theorem bind (hx : Returns x) (hf : ∀ a, Returns (f a)) : Returns (x >>= f) := by
  intro w
  obtain ⟨a, w₁, h₁, he₁⟩ := hx w
  obtain ⟨b, w₂, h₂, he₂⟩ := hf a w₁
  rw [he₁.root_eq] at he₂
  exact ⟨b, w₂, (bind_ok h₁).trans h₂, he₁.trans he₂⟩

theorem logTo (stream : Stream) (scope : Scope) (values : List Json) :
    Returns (logTo stream scope values) := fun w => ⟨(), logTo_does stream scope values w⟩

theorem log (scope : Scope) (message : String) (values : List Json) :
    Returns (log scope message values) := logTo .out scope _

theorem logFields (scope : Scope) (message : String) (fields : List (String × Json)) :
    Returns (logFields scope message fields) := log scope message _

theorem trace (level : Level) (event : String) (data : Option Json) :
    Returns (trace level event data) := fun w => ⟨(), trace_does level event data w⟩

theorem warnFailed (code : WarningCode) (what : String) (failure : Failure) :
    Returns (warnFailed code what failure) := fun w => ⟨(), warnFailed_does code what failure w⟩

end Returns

/-! ### Operations for which the lines do not matter -/

/-- How the operation ends does not depend on the lines that were written before. -/
def Steady (x : Effect α) : Prop := ∀ w w', w.Evolves w.root w' → (x w').1 = (x w).1

namespace Steady

theorem pure (a : α) : Steady (pure a) := fun _ _ _ => rfl

theorem fail (failure : Failure) : Steady (fail failure : Effect α) := fun _ _ _ => rfl

theorem failSystem (error : SystemError) : Steady (failSystem error : Effect α) := fail _

theorem lookup (follow : Bool) (path : String) : Steady (lookup follow path) := by
  rintro w _ ⟨lines, rfl⟩
  cases h : Lookup.place? w.root follow (absolute w path) with
  | ok place => rw [lookup_ok h, lookup_ok (by exact h)]
  | error error => rw [lookup_error h, lookup_error (by exact h)]

/-- An operation that can only return has nothing to depend on. -/
theorem of_returns {x : Effect Unit} (h : Returns x) : Steady x := by
  intro w w' _
  obtain ⟨_, _, hx, -⟩ := h w
  obtain ⟨_, _, hx', -⟩ := h w'
  rw [hx, hx']

theorem bind (hx : Steady x) (ho : Observes x) (hf : ∀ a, Steady (f a)) :
    Steady (x >>= f) := by
  intro w w' he
  have hsame := hx w w' he
  rcases ho w with ⟨a, w₁, h₁, he₁⟩ | ⟨failure, w₁, h₁, he₁⟩ <;>
    rcases ho w' with ⟨a', w₂, h₂, he₂⟩ | ⟨failure', w₂, h₂, he₂⟩ <;>
    rw [h₁, h₂] at hsame <;> cases hsame
  · rw [bind_ok h₁, bind_ok h₂]
    rw [he.root_eq] at he₂
    exact hf a w₁ w₂ (he₁.between (he.trans he₂))
  · rw [bind_error h₁, bind_error h₂]

theorem attempt (hx : Steady x) : Steady (attempt x) := by
  intro w w' he
  have hsame := hx w w' he
  unfold Effect.attempt
  cases h : x w with
  | mk result w₁ =>
      cases h' : x w' with
      | mk result' w₂ =>
          rw [h, h'] at hsame
          cases hsame
          rcases result with (failure | _) | a <;> rfl

end Steady

end Effect

end ScriptPack

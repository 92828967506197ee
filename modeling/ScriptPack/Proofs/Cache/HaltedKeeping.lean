import ScriptPack.Proofs.Cache.Halting

/-!
Where keeping a result can be stopped. Until the draft of the new document is moved into its place,
what the old document lists is in the folder as it was; from then on that holds of the new one. What
is done before and after that one step is done to names that no document lists.
-/

namespace ScriptPack.Cache

open Effect Node Lookup Files

variable {cache : Cache} {dir name id : String} {loc : Location} {w w' : World}
  {entries entries₁ entries₂ : List (String × Node)} {Q : List (String × Node) → Prop}
  {P : Node → Prop} {records : Records}

/-! ### Recording -/

theorem Closed.removePath_passes (h : Closed dir w) (hn : Path.IsStep name) (hp : P w.root) :
    Passes P (Cache.removePath (dir ++ "/" ++ name)) w := by
  obtain ⟨error, he⟩ := h.child hn false
  have hremove : Passes P (removeAll (dir ++ "/" ++ name)) w := by
    intro w' hw
    rw [← hw.root_eq, ← hw.absolute_eq] at he
    rw [← hw.root_eq] at hp
    by_cases hne : error = .noEntry
    · rw [removeAll_noEntry (hne ▸ he)]
      exact hp
    · rw [removeAll_error he hne]
      exact hp
  refine .bind_observes hremove.attempt fun result => ?_
  cases result with
  | ok _ => exact .pure _
  | error failure => exact .bind (Returns.warnFailed _ _ _).observes fun _ => .pure _

/-- Whether keeping goes on does not depend on where the process is stopped. -/
theorem Proceeds.like {script invocation output signature : String} {expected : Option String}
    (h : cache.Proceeds w' script invocation output expected signature) (hw : w.Like w')
    (hs : w.stepsLeft = none) : cache.Proceeds w script invocation output expected signature := by
  refine ⟨h.enabled, ?_, ?_, h.expected_eq⟩
  · rw [← hw.root_eq, ← hw.absolute_eq]
    exact h.there
  · have hsame := ((Files.signature_orderly script invocation).resumes w w' hw hs).resolve_left
      (by rw [h.signature_eq]; nofun)
    rw [h.signature_eq] at hsame
    rcases signature_cases script invocation w with ⟨content, stamp, -, -, hx⟩ | ⟨failure, hx⟩
    · rw [hx] at hsame ⊢
      rw [Except.ok.inj hsame.1]
    · rw [hx] at hsame
      cases hsame.1

end ScriptPack.Cache

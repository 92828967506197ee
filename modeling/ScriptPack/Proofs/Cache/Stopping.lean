import ScriptPack.Cache.Find
import ScriptPack.Cache.Keep
import ScriptPack.Proofs.FileSystem.Stopping

/-!
The cache always answers. What goes wrong while it is used is dealt with there, so that a process
that goes on gets a value from every call; and a process that is stopped has made the same steps.
-/

namespace ScriptPack

open Effect

theorem Files.signature_orderly (script invocation : String) :
    Orderly (Files.signature script invocation) :=
  .bind (read_orderly script) fun _ => .bind (modified_orderly script) fun _ => .pure _

namespace Store

theorem commit_orderly (store : Store) (next : Records) : Orderly (store.commit next) := by
  refine .bind (Files.makeFolders_orderly _) fun _ => .get_bind (fun w => ?_) fun _ _ _ => rfl
  split
  · exact .fail _
  · exact .bind (Files.writeFile_orderly _ _) fun _ =>
      .bind (Files.rename_orderly _ _) fun _ => .pure _

end Store

namespace Cache

variable (cache : Cache)

theorem removePath_answers (path : String) : Effect.Answers (removePath path) := by
  refine .bind (.attempt (Files.removeAll_orderly _)) fun result => ?_
  split
  · exact .pure _
  · exact .bind (.warnFailed _ _ _) fun _ => .pure _

/-! ### Eviction -/

theorem sweepNames_answers (names : List String) : Effect.Answers (cache.sweepNames names) := by
  induction names with
  | nil => exact .pure _
  | cons name rest ih =>
      have hrest (gone : Bool) : Effect.Answers (do
          let others ← cache.sweepNames rest
          return (if gone then 1 else 0) + others) := .bind ih fun _ => .pure _
      rw [sweepNames]
      exact .ite (hrest false) (.bind (removePath_answers _) hrest)

theorem sweepOrphans_answers : Effect.Answers cache.sweepOrphans := by
  refine .bind (.attempt (Files.list_orderly _)) fun result => ?_
  split
  · exact .bind (.logFields _ _ _) fun _ => .pure _
  · refine .bind (sweepNames_answers cache _) fun removed => .ite ?_ (.pure _)
    exact .bind (.logFields _ _ _) fun _ => .bind (.traceInfo _ _) fun _ => .pure _

theorem removeOldest_answers (target : Number) (list : List Entry) :
    ∀ total, Effect.Answers (cache.removeOldest target list total) := by
  induction list with
  | nil => exact fun _ => .pure _
  | cons entry rest ih =>
      refine fun total => .ite (.pure _) ?_
      refine .bind (removePath_answers _) fun gone => .ite ?_ (ih _)
      exact .bind (ih _) fun _ => .pure _

end Cache

end ScriptPack

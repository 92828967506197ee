import ScriptPack.Discovery.Discoverer
import ScriptPack.Proofs.FileSystem.Copying

/-!
Discovery only looks. Whatever a script, its neighbours and the search paths are like, the search
returns and leaves the files as they are.
-/

namespace ScriptPack

open Effect

namespace Files

theorem read_observes (path : String) : Observes (read path) := .of_same (read_same path)

theorem isFolder_returns (path : String) : Returns (isFolder path) := by
  refine .bind (.attempt (require_observes true path)) fun result => ?_
  cases result with
  | ok found => exact .pure _
  | error failure => exact .pure _

theorem isFile_returns (path : String) : Returns (isFile path) := by
  refine .bind (.attempt (require_observes true path)) fun result => ?_
  cases result with
  | ok found => exact .pure _
  | error failure => exact .pure _

theorem imports_observes (path : String) : Observes (imports path) := by
  refine .bind (read_observes path) fun content => ?_
  simp only
  split
  · exact .bind (Returns.log _ _ _).observes fun _ => .pure _
  · exact .pure _

end Files

namespace Discovery

namespace Scan

theorem readFile_returns (scan : Scan) (file : String) : Returns (scan.readFile file) := by
  refine .bind (.attempt (Files.imports_observes file)) fun result => ?_
  cases result with
  | ok found => exact .bind (.trace _ _ _) fun _ => .pure _
  | error failure => exact .bind (.warnFailed _ _ _) fun _ => .pure _

theorem siblings_returns (scan : Scan) (file : String) : Returns (scan.siblings file) := by
  rw [siblings]
  simp only
  split
  · exact .pure _
  · refine .bind (.attempt (Files.list_observes _)) fun result => ?_
    cases result with
    | ok entries => exact .bind (.pure _) fun _ => .pure _
    | error failure => exact .bind (.warnFailed _ _ _) fun _ => .pure _

theorem walk_returns (maxDepth : Number) (room : Nat) (waiting : List (String × Nat))
    (scan : Scan) : Returns (walk maxDepth room waiting scan) := by
  induction room generalizing waiting scan with
  | zero =>
      rw [walk]
      exact .pure scan
  | succ room ih =>
      match waiting with
      | [] =>
          rw [walk]
          exact .pure scan
          exact nofun
      | (file, depth) :: waiting =>
          rw [walk]
          refine .bind (readFile_returns scan file) fun scan => ?_
          split
          · exact ih _ _
          · exact .bind (siblings_returns scan file) fun found => ih _ _

theorem run_returns (maxDepth : Number) (entry : String) : Returns (run maxDepth entry) := by
  refine .bind (.attempt (Files.list_observes _)) fun result => ?_
  cases result with
  | ok entries => exact .bind (.pure _) fun _ => walk_returns _ _ _ _
  | error failure => exact .bind (.pure _) fun _ => walk_returns _ _ _ _

end Scan

namespace SearchPaths

theorem list_returns (paths : SearchPaths) (folder : String) : Returns (paths.list folder) := by
  rw [list]
  split
  · exact .pure _
  · refine .bind (.attempt (Files.list_observes folder)) fun result => ?_
    cases result with
    | ok entries => exact .bind (.pure _) fun _ => .pure _
    | error failure => exact .bind (.pure _) fun _ => .pure _

theorem isUnder_returns (paths : SearchPaths) (root : String) (packages : List String)
    (module : String) : Returns (paths.isUnder root packages module) := by
  refine .bind (Files.isFolder_returns _) fun isPackage => ?_
  split
  · exact .pure _
  · refine .bind (Files.isFile_returns _) fun isSource => ?_
    split
    · exact .pure _
    · exact .bind (list_returns paths _) fun _ => .pure _

theorem isUnderAny_returns (packages : List String) (module : String) (roots : List String)
    (paths : SearchPaths) : Returns (isUnderAny packages module roots paths) := by
  induction roots generalizing paths with
  | nil => exact .pure _
  | cons root rest ih =>
      refine .bind (isUnder_returns paths root packages module) fun ⟨found, paths⟩ => ?_
      simp only
      split
      · exact .pure _
      · exact ih paths

theorem canResolve_returns (paths : SearchPaths) (module : String) :
    Returns (paths.canResolve module) := by
  rw [canResolve]
  simp only
  split
  · exact isUnderAny_returns _ _ _ _
  · exact .pure _

end SearchPaths

theorem Resolver.resolves_returns (resolver : Resolver) (module : String) :
    Returns (resolver.resolves module) := by
  cases resolver with
  | rule accepts =>
      rw [resolves]
      split
      · exact .pure _
      · exact .bind (.logFields _ _ _) fun _ => .pure _
  | searchPaths paths => exact .bind (paths.canResolve_returns module) fun _ => .pure _

end Discovery

namespace Discoverer

open Discovery

theorem classify_returns (discoverer : Discoverer) (names : List String) :
    Returns (discoverer.classify names) := by
  induction names generalizing discoverer with
  | nil => exact .pure _
  | cons name rest ih =>
      rw [classify]
      split
      · exact .bind (ih discoverer) fun _ => .pure _
      · split
        · exact .bind (ih discoverer) fun _ => .pure _
        · refine .bind (discoverer.resolver.resolves_returns name) fun ⟨isKnown, resolver⟩ => ?_
          refine .bind (ih _) fun ⟨report, discoverer⟩ => ?_
          simp only
          split
          · exact .pure _
          · exact .pure _

theorem reportOn_observes (discoverer : Discoverer) (entry : String) :
    Observes (discoverer.reportOn entry) := by
  refine .bind (Files.isFile_returns entry).observes fun isSource => ?_
  split
  · exact .bind (Returns.logFields _ _ _).observes fun _ => .pure _
  · refine .bind (Scan.run_returns _ entry).observes fun scan => ?_
    cases candidates discoverer.settings scan with
    | error failure => exact .fail failure
    | ok names =>
        refine .bind (discoverer.classify_returns names).observes fun ⟨report, discoverer⟩ => ?_
        refine .bind (Returns.log _ _ _).observes fun _ => ?_
        exact .bind (Returns.trace _ _ _).observes fun _ => .pure _

/-- The search for the modules of a script returns, whatever it finds. -/
theorem discover_returns (discoverer : Discoverer) (script : String) :
    Returns (discoverer.discover script) := by
  refine .bind ?_ fun _ => .pure _
  rw [report]
  split
  · exact .pure _
  · refine .bind (fun w => ⟨_, does_of_eq rfl⟩) fun path => ?_
    refine .bind (.attempt (discoverer.reportOn_observes path)) fun result => ?_
    cases result with
    | ok result => exact .pure _
    | error failure => exact .bind (.warnFailed _ _ _) fun _ => .pure _

end Discoverer

end ScriptPack

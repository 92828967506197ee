import ScriptPack.Proofs.Discovery.Report

/-!
The report on a script as a function of the files. Whatever is written or remembered on the way, a
search for modules comes to this report, so that two searches can be compared by what they come to.
-/

namespace ScriptPack

open Effect Discovery

/-- Whether a path leads to a file is found out without a change. -/
theorem Files.isFile_same (path : String) (w : World) :
    ∃ answer, isFile path w = (.ok answer, w) ∧ (answer = true ↔ ∃ loc content modified,
      Lookup.place? w.root true (absolute w path) = .ok (.found loc (.file content modified))) := by
  cases hp : Lookup.place? w.root true (absolute w path) with
  | error error =>
      refine ⟨false, ?_, nofun, nofun⟩
      rw [isFile, bind_ok (attempt_failed (require_error hp))]
      rfl
  | ok place =>
      cases place with
      | free loc =>
          refine ⟨false, ?_, nofun, nofun⟩
          rw [isFile, bind_ok (attempt_failed (require_free hp))]
          rfl
      | found loc node =>
          refine ⟨node.isFile, ?_, ?_⟩
          · rw [isFile, bind_ok (attempt_ok (require_found hp))]
            rfl
          · cases node with
            | file content modified => exact ⟨fun _ => ⟨loc, content, modified, rfl⟩, fun _ => rfl⟩
            | folder entries => exact ⟨nofun, nofun⟩
            | link target => exact ⟨nofun, nofun⟩

namespace Discoverer

/-- The absolute path of a script, if it is one that is scanned. -/
def start? (w : World) (script : String) : Option String :=
  let entry := Path.resolve w.workingDirectory script
  if Path.extension entry = ".py" ∧ (Files.isFile entry w).1.toOption = some true then some entry
  else none

/-- The names that files lead to, in order, each once. -/
def namesIn (settings : DiscoverySettings) (w : World) (files : List String) :
    Except Failure (List String) :=
  candidates settings ⟨files.flatMap (topsOf w), files, []⟩

/-- The report on files that were read. -/
def reportFor (discoverer : Discoverer) (w : World) (files : List String) : Report :=
  match namesIn discoverer.settings w files with
  | .error _ => .empty
  | .ok names => { discoverer.sorted w names with visited := files }

/-- What a search for the modules of a script comes to. -/
def outcome (discoverer : Discoverer) (w : World) (script : String) : Report :=
  match if discoverer.settings.enabled then start? w script else none with
  | none => .empty
  | some entry => discoverer.reportFor w (reached discoverer.settings.maxDepth w entry)

variable {discoverer : Discoverer} {script entry : String} {w : World}

theorem start?_eq_some (h : start? w script = some entry) :
    entry = Path.resolve w.workingDirectory script ∧ Path.extension entry = ".py" ∧
      Files.isFile entry w = (.ok true, w) := by
  simp only [start?, Option.ite_none_right_eq_some, Option.some.injEq] at h
  obtain ⟨⟨hpy, hfile⟩, rfl⟩ := h
  obtain ⟨answer, hx, -⟩ := Files.isFile_same (Path.resolve w.workingDirectory script) w
  rw [hx] at hfile
  cases hfile
  exact ⟨rfl, hpy, hx⟩

theorem outcome_entry (he : discoverer.settings.enabled = true)
    (hentry : start? w script = some entry) : discoverer.outcome w script =
      discoverer.reportFor w (reached discoverer.settings.maxDepth w entry) := by
  simp only [outcome, he, if_true, hentry]

theorem outcome_skipped (hentry : start? w script = none) :
    discoverer.outcome w script = .empty := by
  simp only [outcome, hentry, ite_self]

/-- If a file that is reached imports something under a reserved name, nothing is found at all. -/
theorem outcome_reserved (he : discoverer.settings.enabled = true)
    (hentry : start? w script = some entry)
    {file top : String} (hf : file ∈ reached discoverer.settings.maxDepth w entry)
    (ht : top ∈ topsOf w file) (hmem : top ∈ reservedNames) :
    discoverer.outcome w script = .empty := by
  obtain ⟨failure, hx⟩ := @candidates_error discoverer.settings
    ⟨(reached discoverer.settings.maxDepth w entry).flatMap (topsOf w), _, []⟩ top
    (List.mem_flatMap.mpr ⟨file, hf, ht⟩) (topLevelName_of_mem_topsOf ht) hmem
  rw [outcome_entry he hentry, reportFor, namesIn, hx]

/-- Otherwise the names that the reached files need are sorted into the report. -/
theorem outcome_plain (he : discoverer.settings.enabled = true)
    (hentry : start? w script = some entry)
    (hr : ∀ file ∈ reached discoverer.settings.maxDepth w entry, ∀ top ∈ topsOf w file,
      top ∉ reservedNames) :
    ∃ names, discoverer.outcome w script = { discoverer.sorted w names with
        visited := reached discoverer.settings.maxDepth w entry } ∧
      ∀ name, name ∈ names ↔
        Needed discoverer.settings w (reached discoverer.settings.maxDepth w entry) name := by
  obtain ⟨names, hx, -, hnames⟩ := @candidates_ok discoverer.settings
    ⟨(reached discoverer.settings.maxDepth w entry).flatMap (topsOf w), _, []⟩ w _ rfl hr
  refine ⟨names, ?_, hnames⟩
  rw [outcome_entry he hentry, reportFor, namesIn, hx]

theorem isNormal_of_start? (h : start? w script = some entry) : Path.IsNormal entry := by
  obtain ⟨rfl, hpy, -⟩ := start?_eq_some h
  refine (Path.resolve_isNormal w.workingDirectory script).resolve_left fun heq => ?_
  rw [heq] at hpy
  exact absurd hpy (by decide)

/-- A script that is not to be scanned. -/
theorem reportOn_skipped (h : start? w script = none) :
    Does (discoverer.reportOn (Path.resolve w.workingDirectory script)) w (.empty, discoverer)
      w.root := by
  obtain ⟨answer, hx, -⟩ := Files.isFile_same (Path.resolve w.workingDirectory script) w
  have hcheck : (Path.extension (Path.resolve w.workingDirectory script) != ".py" || !answer) =
      true := by
    by_cases hpy : Path.extension (Path.resolve w.workingDirectory script) = ".py"
    · cases answer with
      | false => exact Bool.or_true _
      | true =>
          rw [start?, if_pos ⟨hpy, by rw [hx]; rfl⟩] at h
          cases h
    · rw [bne_iff_ne.mpr hpy, Bool.true_or]
  rw [reportOn]
  refine (does_of_eq hx).bind fun w₁ he => ?_
  rw [hcheck, if_pos rfl, ← he.root_eq]
  exact (logFields_does _ _ _ w₁).bind fun w₂ he₂ => by
    rw [← he₂.root_eq]
    exact does_pure _ w₂

/-- A search for the modules of a script returns what it comes to, and leaves the files alone. -/
theorem report_does (discoverer : Discoverer) (script : String) (hw : w.root.WellFormed) :
    ∃ other, Does (discoverer.report script) w (discoverer.outcome w script, other) w.root := by
  cases henabled : discoverer.settings.enabled with
  | false =>
      rw [outcome, henabled, report, henabled]
      exact ⟨discoverer, does_pure _ w⟩
  | true =>
      cases hentry : start? w script with
      | none =>
          rw [outcome_skipped hentry]
          exact ⟨discoverer, report_returned henabled (reportOn_skipped hentry)⟩
      | some entry =>
          rw [outcome_entry henabled hentry, reportFor]
          obtain ⟨hpath, hpy, hfile⟩ := start?_eq_some hentry
          obtain ⟨scan, hscan, hvisited, hnames⟩ :=
            Scan.run_does discoverer.settings.maxDepth hw (isNormal_of_start? hentry)
          have hsame : candidates discoverer.settings scan = namesIn discoverer.settings w
              (reached discoverer.settings.maxDepth w entry) := by
            rw [namesIn, candidates, candidates, hnames]
          cases hx : namesIn discoverer.settings w
              (reached discoverer.settings.maxDepth w entry) with
          | error failure =>
              have hfails := reportOn_error hpy hfile hscan (hsame.trans hx)
              rw [hpath] at hfails
              exact ⟨discoverer, report_failed henabled hfails⟩
          | ok names =>
              obtain ⟨other, hdoes⟩ := reportOn_ok hpy hfile hscan (hsame.trans hx)
              rw [hvisited, hpath] at hdoes
              rw [hpath]
              exact ⟨other, report_returned henabled hdoes⟩

end Discoverer

end ScriptPack

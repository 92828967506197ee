import ScriptPack.Proofs.Discovery.Outcome

/-!
What an interpreter changes in a report. To ask an interpreter makes more names standard and lets
names be unresolved; so names leave the modules, but none is lost and none is gained, and the same
files are visited.
-/

namespace ScriptPack

open Effect

namespace Discovery

/-- All names that a report lists. -/
def Report.names (report : Report) : List String :=
  report.stdlib ++ report.excluded ++ report.unresolved ++ report.modules

/-- A report that has the same names as another one, of which fewer may be modules. -/
structure Report.Narrows (report other : Report) : Prop where
  visited : report.visited = other.visited
  names : report.names.Perm other.names
  modules : report.modules ⊆ other.modules
  stdlib : other.stdlib ⊆ report.stdlib

theorem Report.Narrows.refl (report : Report) : report.Narrows report :=
  ⟨rfl, .refl _, List.Subset.refl _, List.Subset.refl _⟩

end Discovery

open Discovery

namespace Discoverer

variable {discoverer other : Discoverer} {w : World}

/-- Each name is in one of the lists. -/
theorem names_sorted (discoverer : Discoverer) (w : World) (names : List String) :
    (discoverer.sorted w names).names.Perm names := by
  induction names with
  | nil => exact .nil
  | cons name rest ih =>
      simp only [Report.names, sorted, List.filter_cons, isOpen] at ih ⊢
      cases discoverer.stdlib.contains name with
      | true => exact ih.cons name
      | false =>
          cases discoverer.isExcluded name with
          | true =>
              simp only [Bool.not_false, Bool.not_true, Bool.and_true, Bool.and_false,
                Bool.false_and, Bool.false_eq_true, if_false, if_true, List.append_assoc,
                List.cons_append] at ih ⊢
              exact List.perm_middle.trans (ih.cons name)
          | false =>
              cases discoverer.resolver.accepts w name with
              | true =>
                  simp only [Bool.not_false, Bool.not_true, Bool.and_true, Bool.and_false,
                    Bool.false_eq_true, if_false, if_true] at ih ⊢
                  exact List.perm_middle.trans (ih.cons name)
              | false =>
                  simp only [Bool.not_false, Bool.and_true, Bool.and_false, Bool.false_eq_true,
                    if_false, if_true, List.append_assoc, List.cons_append] at ih ⊢
                  rw [← List.append_assoc]
                  refine List.perm_middle.trans ?_
                  rw [List.append_assoc]
                  exact ih.cons name

/-- With the same settings, more standard names and a resolver that takes fewer modules to exist. -/
theorem outcome_narrows (hsettings : discoverer.settings = other.settings)
    (hstdlib : other.stdlib ⊆ discoverer.stdlib)
    (haccepts : ∀ name, other.resolver.accepts w name = true) (script : String) :
    (discoverer.outcome w script).Narrows (other.outcome w script) := by
  rw [outcome, outcome, hsettings]
  split
  · exact .refl _
  · rw [reportFor, reportFor, hsettings]
    split
    · exact .refl _
    · rename_i names _
      refine ⟨rfl, (names_sorted discoverer w names).trans (names_sorted other w names).symm,
        fun name hname => ?_, fun name hname => ?_⟩
      · obtain ⟨hmem, hopen, -⟩ := mem_sorted_modules.mp hname
        refine mem_sorted_modules.mpr ⟨hmem, ?_, haccepts name⟩
        rw [isOpen_iff, hsettings] at hopen
        exact isOpen_iff.mpr ⟨fun hin => hopen.1 (hstdlib hin), hopen.2⟩
      · obtain ⟨hmem, hin⟩ := (@mem_sorted_stdlib other w names name).mp hname
        exact (@mem_sorted_stdlib discoverer w names name).mpr ⟨hmem, hstdlib hin⟩

/-- A resolver and more standard names, next to a discoverer that takes all modules to exist. -/
theorem outcome_narrows_of_append (settings : DiscoverySettings) (stdlib more : List String)
    (resolver : Resolver) (script : String) :
    (Discoverer.outcome ⟨settings, resolver, stdlib ++ more⟩ w script).Narrows
      (Discoverer.outcome ⟨settings, .acceptAll, stdlib⟩ w script) := by
  refine @outcome_narrows ⟨settings, resolver, stdlib ++ more⟩ ⟨settings, .acceptAll, stdlib⟩ w rfl
    (fun name hname => ?_) (fun name => ?_) script
  · exact List.mem_append_left more hname
  · rfl

variable {run : Runner} {python : String}

/-- What an interpreter says, if it can be asked and its answer is of use. -/
def answered (run : Runner) (python : String) (w : World) : Option Interpreter :=
  (run python ["-c", probeProgram] w).1.toOption.bind (Interpreter.ofAnswer? python)

/-- Asking an interpreter that comes to an end. -/
theorem probe_returns (hends : (run python ["-c", probeProgram] w).1 ≠ .error .interrupted) :
    ∃ w', Interpreter.probe run python w = (.ok (answered run python w), w') := by
  cases hx : run python ["-c", probeProgram] w with
  | mk result w₁ =>
      rw [answered, hx]
      cases result with
      | ok answer =>
          rw [Interpreter.probe, bind_ok (attempt_ok hx)]
          simp only [Except.toOption, Option.bind_some]
          split
          · obtain ⟨w₂, hx₂, -⟩ := logFields_does .discovery
              "unexpected interpreter probe output" [("python", .string python)] w₁
            exact ⟨w₂, bind_ok hx₂⟩
          · exact ⟨w₁, rfl⟩
      | error stop =>
          cases stop with
          | interrupted => exact absurd (by rw [hx]) hends
          | failed failure =>
              obtain ⟨w₂, hx₂, -⟩ := logFields_does .discovery "python probe failed"
                [("python", .string python), ("error", .string failure.message)] w₁
              rw [Interpreter.probe, bind_ok (attempt_failed hx)]
              exact ⟨w₂, bind_ok hx₂⟩

/-- A discoverer that is to check names: one that does if the interpreter has answered. -/
theorem create_returns (settings : DiscoverySettings)
    (hends : (run python ["-c", probeProgram] w).1 ≠ .error .interrupted) :
    ∃ discoverer w', create run true settings python w = (.ok discoverer, w') ∧
      (discoverer = unverified settings ∨ ∃ interpreter, answered run python w = some interpreter ∧
        discoverer = ⟨settings, .searchPaths (.ofRoots interpreter.searchPaths),
          bundledModules ++ interpreter.modules⟩) := by
  cases henabled : settings.enabled with
  | false =>
      refine ⟨unverified settings, w, ?_, .inl rfl⟩
      rw [create, henabled]
      rfl
  | true =>
      obtain ⟨w₁, hx⟩ := probe_returns hends
      have hbegin := fun f : Option Interpreter → Effect Discoverer => bind_ok (f := f) hx
      rw [create, henabled, if_neg (by decide), hbegin]
      cases hanswer : answered run python w with
      | none =>
          obtain ⟨w₂, hx₂, -⟩ := warn_does ⟨.discoveryFailed,
            "cannot probe " ++ python ++ "; discovered names will not be verified",
            "set discovery.python in exepack.config.js"⟩ w₁
          exact ⟨unverified settings, w₂, bind_ok hx₂, .inl rfl⟩
      | some interpreter => exact ⟨_, w₁, rfl, .inr ⟨interpreter, rfl, rfl⟩⟩

/-- To check names with an interpreter only takes names out of the modules. If the interpreter gives
no answer that is of use, nothing changes. -/
theorem create_narrows (settings : DiscoverySettings)
    (hends : (run python ["-c", probeProgram] w).1 ≠ .error .interrupted) :
    ∃ verified free w' w'', create run true settings python w = (.ok verified, w') ∧
      create run false settings python w = (.ok free, w'') ∧
      ∀ script (w₁ : World), w₁.root.WellFormed → ∃ report report' other other',
        Does (verified.report script) w₁ (report, other) w₁.root ∧
        Does (free.report script) w₁ (report', other') w₁.root ∧
        report.Narrows report' ∧
        (answered run python w = none → report = report') := by
  obtain ⟨verified, w', hx, hverified⟩ := create_returns settings hends
  have hfree : create run false settings python w = (.ok (unverified settings), w) := by
    rw [create, Bool.not_false, Bool.true_or, if_pos rfl]
    rfl
  refine ⟨verified, unverified settings, w', w, hx, hfree, fun script w₁ hw => ?_⟩
  obtain ⟨other, hreport⟩ := verified.report_does script hw
  obtain ⟨other', hreport'⟩ := (unverified settings).report_does script hw
  refine ⟨_, _, other, other', hreport, hreport', ?_, fun hnone => ?_⟩
  · rcases hverified with rfl | ⟨interpreter, -, rfl⟩
    · exact .refl _
    · exact outcome_narrows_of_append settings bundledModules interpreter.modules _ script
  · rcases hverified with rfl | ⟨interpreter, hanswer, -⟩
    · rfl
    · rw [hnone] at hanswer
      cases hanswer

/-- An interpreter to which `numpy` is a module of its own. -/
def numericRunner : Runner := fun _ _ => pure
  "\x7b\"version\": \"3.12.1\", \"stdlib\": [\"numpy\"], \"builtin\": [], \"path\": [\"/W\"]\x7d"

/-- The interpreter answers, and the names in two scripts are checked with it. -/
theorem create_narrows_neighbours :
    (numericRunner "python3" ["-c", probeProgram] neighbours).1 ≠ .error .interrupted ∧
      neighbours.root.WellFormed ∧
      (answered numericRunner "python3" neighbours).map (·.modules) = some ["numpy"] ∧
      ∃ verified free w' w'',
        create numericRunner true ⟨true, 3, [], []⟩ "python3" neighbours = (.ok verified, w') ∧
        create numericRunner false ⟨true, 3, [], []⟩ "python3" neighbours = (.ok free, w'') ∧
        ∃ report report' other other',
          Does (verified.report "a.py") neighbours (report, other) neighbours.root ∧
          Does (free.report "a.py") neighbours (report', other') neighbours.root ∧
          report.Narrows report' := by
  have hends : (numericRunner "python3" ["-c", probeProgram] neighbours).1 ≠
      .error .interrupted := fun h => by cases h
  have hw : neighbours.root.WellFormed := by decide
  obtain ⟨verified, free, w', w'', hverified, hfree, hreports⟩ :=
    create_narrows ⟨true, 3, [], []⟩ hends
  obtain ⟨report, report', other, other', hreport, hreport', hnarrows, -⟩ :=
    hreports "a.py" neighbours hw
  exact ⟨hends, hw, by decide +kernel, verified, free, w', w'', hverified, hfree, report, report',
    other, other', hreport, hreport', hnarrows⟩

end Discoverer

end ScriptPack

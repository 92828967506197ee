import Mathlib.Data.List.TakeWhile
import ScriptPack.Proofs.Cache.Commit
import ScriptPack.Proofs.Discovery.Scanning
import ScriptPack.Proofs.Distinct

/-!
What the report on a script says. The names in question are the top-level names of the imports in the
files that are read, and one round of submodules that go with these. Each of them is in exactly one
of the four lists of the report.
-/

namespace ScriptPack

open Effect

namespace Discovery

/-! ### The names in question -/

/-- A name is needed for some files if it is a top-level name of an import in one of them, or a
submodule that goes with such a name. -/
def Needed (settings : DiscoverySettings) (w : World) (files : List String) (name : String) :
    Prop :=
  ∃ file ∈ files, ∃ top ∈ topsOf w file, name = top ∨
    name ∈ (knownSubmodules.lookup top).getD [] ∨
    name ∈ (settings.extraSubmodules.get? top).getD []

theorem topLevelName_topLevelName (module : String) :
    Python.topLevelName (Python.topLevelName module) = Python.topLevelName module := by
  rw [Python.topLevelName, Python.topLevelName, String.toList_ofList, List.takeWhile_idem]

theorem topLevelName_of_mem_topsOf {w : World} {file top : String} (h : top ∈ topsOf w file) :
    Python.topLevelName top = top := by
  rw [topsOf] at h
  split at h
  · obtain ⟨item, -, rfl⟩ := List.mem_map.mp h
    exact topLevelName_topLevelName _
  · cases h

theorem mapM_ok {α β : Type} {f : α → Except Failure β} {g : α → β} {all : List α}
    (h : ∀ a ∈ all, f a = .ok (g a)) : all.mapM f = .ok (all.map g) := by
  induction all with
  | nil => rfl
  | cons a rest ih =>
      rw [List.mapM_cons, h a List.mem_cons_self, ih fun b hb => h b (List.mem_cons_of_mem _ hb)]
      rfl

theorem mapM_error {α β : Type} {f : α → Except Failure β} {all : List α} {a : α}
    {failure : Failure} (ha : a ∈ all) (h : f a = .error failure) :
    ∃ failure', all.mapM f = .error failure' := by
  induction all with
  | nil => cases ha
  | cons b rest ih =>
      rw [List.mapM_cons]
      cases hb : f b with
      | error failure' => exact ⟨failure', rfl⟩
      | ok c =>
          have hrest : a ∈ rest := (List.mem_cons.mp ha).resolve_left fun heq => by
            subst a
            cases hb.symm.trans h
          obtain ⟨failure', hrest⟩ := ih hrest
          exact ⟨failure', by rw [hrest]; rfl⟩

/-- One round of submodules is added if no top-level name is reserved. -/
theorem candidates_ok {settings : DiscoverySettings} {scan : Scan} {w : World}
    {files : List String} (hn : scan.names = files.flatMap (topsOf w))
    (hr : ∀ file ∈ files, ∀ top ∈ topsOf w file, top ∉ reservedNames) :
    ∃ names, Discoverer.candidates settings scan = .ok names ∧ Text.Utf16.Ascending names ∧
      ∀ name, name ∈ names ↔ Needed settings w files name := by
  let row (top : String) : List String :=
    (knownSubmodules.lookup top).getD [] ++ (settings.extraSubmodules.get? top).getD []
  have htops : scan.names.map Python.topLevelName = scan.names := by
    refine (List.map_congr_left fun top ht => ?_).trans (List.map_id _)
    rw [hn] at ht
    obtain ⟨file, -, ht⟩ := List.mem_flatMap.mp ht
    exact topLevelName_of_mem_topsOf ht
  have hrows : scan.names.eraseDups.mapM (submodulesOf settings.extraSubmodules) =
      .ok (scan.names.eraseDups.map row) := by
    refine mapM_ok fun top ht => ?_
    rw [List.mem_eraseDups, hn] at ht
    obtain ⟨file, hf, ht⟩ := List.mem_flatMap.mp ht
    rw [submodulesOf, if_neg (by simpa using hr file hf top ht)]
  have hadded : expandSubmodules scan.names settings.extraSubmodules =
      .ok (scan.names.eraseDups.map row).flatten.eraseDups := by
    simp only [expandSubmodules, htops, hrows]
    rfl
  have hnames : Discoverer.candidates settings scan = .ok (Text.Utf16.sort
      (scan.names ++ (scan.names.eraseDups.map row).flatten.eraseDups).eraseDups) := by
    rw [Discoverer.candidates, hadded]
    rfl
  refine ⟨_, hnames, Text.Utf16.ascending_sort (nodup_eraseDups _), fun name => ?_⟩
  rw [Text.Utf16.mem_sort, List.mem_eraseDups, List.mem_append, List.mem_eraseDups, hn]
  simp only [List.mem_flatten, List.mem_map, List.mem_eraseDups, List.mem_flatMap, row, Needed]
  constructor
  · rintro (⟨file, hf, ht⟩ | ⟨_, ⟨top, ⟨file, hf, ht⟩, rfl⟩, hname⟩)
    · exact ⟨file, hf, name, ht, .inl rfl⟩
    · exact ⟨file, hf, top, ht, .inr (List.mem_append.mp hname)⟩
  · rintro ⟨file, hf, top, ht, rfl | hname⟩
    · exact .inl ⟨file, hf, ht⟩
    · exact .inr ⟨_, ⟨top, ⟨file, hf, ht⟩, rfl⟩, List.mem_append.mpr hname⟩

end Discovery

namespace Discoverer

open Discovery

/-! ### The four lists -/

def isExcluded (discoverer : Discoverer) (name : String) : Bool :=
  (excludedNames ++ discoverer.settings.excluded).contains name

/-- The names that are neither standard nor excluded. -/
def isOpen (discoverer : Discoverer) (name : String) : Bool :=
  !discoverer.stdlib.contains name && !discoverer.isExcluded name

/-- The report in which every name is in the list for it. -/
def sorted (discoverer : Discoverer) (w : World) (names : List String) : Report where
  modules := names.filter fun name =>
    discoverer.isOpen name && discoverer.resolver.accepts w name
  visited := []
  stdlib := names.filter (discoverer.stdlib.contains ·)
  excluded := names.filter fun name =>
    !discoverer.stdlib.contains name && discoverer.isExcluded name
  unresolved := names.filter fun name =>
    discoverer.isOpen name && !discoverer.resolver.accepts w name

theorem classify_does (discoverer : Discoverer) (names : List String) (w : World) :
    ∃ other, Does (discoverer.classify names) w (discoverer.sorted w names, other) w.root := by
  induction names generalizing discoverer w with
  | nil => exact ⟨discoverer, does_pure _ w⟩
  | cons name rest ih =>
      rw [classify]
      cases hstdlib : discoverer.stdlib.contains name with
      | true =>
          obtain ⟨other, w₁, hx, he⟩ := ih discoverer w
          refine ⟨other, w₁, (bind_ok hx).trans ?_, he⟩
          simp only [sorted, List.filter_cons, isOpen, hstdlib, Bool.not_true, Bool.false_and,
            Bool.false_eq_true, if_false, if_true]
          rfl
      | false =>
          cases hexcluded : (excludedNames ++ discoverer.settings.excluded).contains name with
          | true =>
              obtain ⟨other, w₁, hx, he⟩ := ih discoverer w
              refine ⟨other, w₁, (bind_ok hx).trans ?_, he⟩
              simp only [sorted, List.filter_cons, isOpen, isExcluded, hstdlib, hexcluded,
                Bool.not_true, Bool.not_false, Bool.and_false, Bool.false_and, Bool.true_and,
                Bool.false_eq_true, if_false, if_true]
              rfl
          | false =>
              obtain ⟨resolver, ⟨w₁, hx₁, he₁⟩, hsame⟩ := discoverer.resolver.resolves_does name w
              obtain ⟨other, w₂, hx₂, he₂⟩ := ih { discoverer with resolver } w₁
              rw [he₁.root_eq] at he₂
              refine ⟨other, w₂, (bind_ok hx₁).trans ((bind_ok hx₂).trans ?_), he₁.trans he₂⟩
              cases hknown : discoverer.resolver.accepts w name <;>
                simp only [sorted, List.filter_cons, isOpen, isExcluded, hstdlib, hexcluded, hknown,
                  hsame w₁ he₁, Bool.not_true, Bool.not_false, Bool.and_false, Bool.and_true,
                  Bool.false_eq_true, if_false, if_true] <;>
                rfl

/-- Each of the names in question is in one list of the report, namely the first one in this order
that takes it: standard, excluded, unresolved, and the modules otherwise. -/
structure Sorts (discoverer : Discoverer) (w : World) (needed : String → Prop) (report : Report) :
    Prop where
  ascending : ∀ names ∈ [report.stdlib, report.excluded, report.unresolved, report.modules],
    Text.Utf16.Ascending names
  disjoint : [report.stdlib, report.excluded, report.unresolved, report.modules].Pairwise
    List.Disjoint
  all : ∀ name, needed name ↔ name ∈ report.stdlib ∨ name ∈ report.excluded ∨
    name ∈ report.unresolved ∨ name ∈ report.modules
  stdlib : ∀ name, needed name → (name ∈ report.stdlib ↔ name ∈ discoverer.stdlib)
  excluded : ∀ name, needed name → name ∉ discoverer.stdlib →
    (name ∈ report.excluded ↔ name ∈ excludedNames ∨ name ∈ discoverer.settings.excluded)
  unresolved : ∀ name, needed name → name ∉ discoverer.stdlib → name ∉ excludedNames →
    name ∉ discoverer.settings.excluded →
    (name ∈ report.unresolved ↔ discoverer.resolver.accepts w name = false)
  modules : ∀ name, needed name → name ∉ discoverer.stdlib → name ∉ excludedNames →
    name ∉ discoverer.settings.excluded →
    (name ∈ report.modules ↔ discoverer.resolver.accepts w name = true)

theorem isExcluded_iff {discoverer : Discoverer} {name : String} :
    discoverer.isExcluded name = true ↔
      name ∈ excludedNames ∨ name ∈ discoverer.settings.excluded := by
  rw [isExcluded, List.contains_iff_mem, List.mem_append]

theorem isOpen_iff {discoverer : Discoverer} {name : String} :
    discoverer.isOpen name = true ↔ name ∉ discoverer.stdlib ∧
      ¬(name ∈ excludedNames ∨ name ∈ discoverer.settings.excluded) := by
  rw [isOpen, Bool.and_eq_true, Bool.not_eq_true', Bool.not_eq_true', ← Bool.not_eq_true,
    ← Bool.not_eq_true, isExcluded_iff, List.contains_iff_mem]

section

variable {discoverer : Discoverer} {w : World} {names : List String} {name : String}

theorem mem_sorted_stdlib : name ∈ (discoverer.sorted w names).stdlib ↔
    name ∈ names ∧ name ∈ discoverer.stdlib := by
  rw [sorted, List.mem_filter, List.contains_iff_mem]

theorem mem_sorted_excluded : name ∈ (discoverer.sorted w names).excluded ↔
    name ∈ names ∧ name ∉ discoverer.stdlib ∧
      (name ∈ excludedNames ∨ name ∈ discoverer.settings.excluded) := by
  rw [sorted, List.mem_filter, Bool.and_eq_true, isExcluded_iff, Bool.not_eq_true',
    ← Bool.not_eq_true, List.contains_iff_mem]

theorem mem_sorted_unresolved : name ∈ (discoverer.sorted w names).unresolved ↔
    name ∈ names ∧ discoverer.isOpen name = true ∧
      discoverer.resolver.accepts w name = false := by
  rw [sorted, List.mem_filter, Bool.and_eq_true, Bool.not_eq_true']

theorem mem_sorted_modules : name ∈ (discoverer.sorted w names).modules ↔
    name ∈ names ∧ discoverer.isOpen name = true ∧
      discoverer.resolver.accepts w name = true := by
  rw [sorted, List.mem_filter, Bool.and_eq_true]

end

theorem sorts_sorted {discoverer : Discoverer} {w : World} {needed : String → Prop}
    {names : List String} (ha : Text.Utf16.Ascending names)
    (hn : ∀ name, name ∈ names ↔ needed name) (visited : List String) :
    Sorts discoverer w needed { discoverer.sorted w names with visited } := by
  refine ⟨?_, ?_, fun name => ?_, fun name h => ?_, fun name h hs => ?_,
    fun name h hs he he' => ?_, fun name h hs he he' => ?_⟩
  · simp only [List.mem_cons, List.not_mem_nil, or_false]
    rintro _ (rfl | rfl | rfl | rfl) <;> exact ha.filter _
  · have hsplit (name : String) := @isOpen_iff discoverer name
    simp only [List.pairwise_cons, List.mem_cons, List.not_mem_nil, or_false, forall_eq_or_imp,
      forall_eq, List.Disjoint, mem_sorted_stdlib, mem_sorted_excluded, mem_sorted_unresolved,
      mem_sorted_modules, hsplit]
    refine ⟨⟨?_, ?_, ?_⟩, ⟨?_, ?_⟩, ?_, nofun, .nil⟩ <;> grind
  · rw [← hn name, mem_sorted_stdlib, mem_sorted_excluded, mem_sorted_unresolved,
      mem_sorted_modules, isOpen_iff]
    grind
  · rw [mem_sorted_stdlib, hn name, and_iff_right h]
  · rw [mem_sorted_excluded, hn name, and_iff_right h, and_iff_right hs]
  · rw [mem_sorted_unresolved, hn name, and_iff_right h, isOpen_iff,
      and_iff_right ⟨hs, fun hor => hor.elim he he'⟩]
  · rw [mem_sorted_modules, hn name, and_iff_right h, isOpen_iff,
      and_iff_right ⟨hs, fun hor => hor.elim he he'⟩]

/-- A reserved name has no row, so that no names are found at all. -/
theorem candidates_error {settings : DiscoverySettings} {scan : Scan} {top : String}
    (ht : top ∈ scan.names) (hsame : Python.topLevelName top = top) (hr : top ∈ reservedNames) :
    ∃ failure, candidates settings scan = .error failure := by
  have hrow : submodulesOf settings.extraSubmodules top = .error .wrongKind := by
    rw [submodulesOf, if_pos (by simpa using hr)]
  have hmem : top ∈ (scan.names.map Python.topLevelName).eraseDups :=
    List.mem_eraseDups.mpr (List.mem_map.mpr ⟨top, ht, hsame⟩)
  obtain ⟨failure, hrows⟩ := mapM_error hmem hrow
  refine ⟨failure, ?_⟩
  rw [candidates, expandSubmodules, hrows]
  rfl

section

variable {discoverer : Discoverer} {entry : String} {w : World} {scan : Scan}

theorem reportOn_eq (hpy : Path.extension entry = ".py")
    (hfile : Files.isFile entry w = (.ok true, w)) :
    discoverer.reportOn entry w = (do
      let scan ← Scan.run discoverer.settings.maxDepth entry
      match candidates discoverer.settings scan with
      | .error failure => fail failure
      | .ok names =>
        let (report, discoverer) ← discoverer.classify names
        let report := { report with visited := scan.visited }
        let count := report.modules.length
        log .discovery ("discovered " ++ toString count ++ " hidden imports")
          [.array (report.modules.map .string)]
        traceInfo "discovery.done"
          [("entry", .string entry), ("visited", .number (.ofNat report.visited.length)),
            ("modules", .number (.ofNat count))]
        return (report, discoverer)) w := by
  refine (bind_ok hfile).trans ?_
  have hcheck : ¬(Path.extension entry != ".py" || !true) = true := by
    rw [hpy]
    decide
  exact congrFun (if_neg hcheck) w

/-- What is reported once the names are known. -/
theorem reportOn_ok {names : List String} (hpy : Path.extension entry = ".py")
    (hfile : Files.isFile entry w = (.ok true, w))
    (hscan : Does (Scan.run discoverer.settings.maxDepth entry) w scan w.root)
    (hnames : candidates discoverer.settings scan = .ok names) :
    ∃ other, Does (discoverer.reportOn entry) w
      ({ discoverer.sorted w names with visited := scan.visited }, other) w.root := by
  obtain ⟨w₁, hx, he⟩ := hscan
  obtain ⟨other, w₂, hx₂, he₂⟩ := discoverer.classify_does names w₁
  have hsorted : discoverer.sorted w₁ names = discoverer.sorted w names := by
    rw [sorted, sorted, Resolver.accepts_steady he]
  rw [hsorted] at hx₂
  obtain ⟨_, w₃, hx₃, he₃⟩ := Returns.log .discovery
    ("discovered " ++ toString (discoverer.sorted w names).modules.length ++ " hidden imports")
    [.array ((discoverer.sorted w names).modules.map .string)] w₂
  obtain ⟨w₄, hx₄, he₄⟩ := traceInfo_does "discovery.done"
    [("entry", .string entry), ("visited", .number (.ofNat scan.visited.length)),
      ("modules", .number (.ofNat (discoverer.sorted w names).modules.length))] w₃
  rw [he.root_eq] at he₂
  have he₂ := he.trans he₂
  rw [he₂.root_eq] at he₃
  have he₃ := he₂.trans he₃
  rw [he₃.root_eq] at he₄
  refine ⟨other, w₄, ?_, he₃.trans he₄⟩
  rw [reportOn_eq hpy hfile, bind_ok hx, hnames]
  exact (bind_ok hx₂).trans ((bind_ok hx₃).trans (bind_ok hx₄))

theorem reportOn_error {failure : Failure} (hpy : Path.extension entry = ".py")
    (hfile : Files.isFile entry w = (.ok true, w))
    (hscan : Does (Scan.run discoverer.settings.maxDepth entry) w scan w.root)
    (hnames : candidates discoverer.settings scan = .error failure) :
    Fails (discoverer.reportOn entry) w failure w.root := by
  obtain ⟨w₁, hx, he⟩ := hscan
  refine ⟨w₁, ?_, he⟩
  rw [reportOn_eq hpy hfile, bind_ok hx, hnames]
  rfl

end

section

variable {discoverer : Discoverer} {script : String} {w : World}

theorem report_eq (he : discoverer.settings.enabled = true) :
    discoverer.report script w = (do
      match ← attempt (discoverer.reportOn (Path.resolve w.workingDirectory script)) with
      | .ok result => return result
      | .error failure =>
        warnFailed .discoveryFailed ("import discovery for " ++ script ++ " failed") failure
        return (.empty, discoverer)) w := by
  have hpath : resolvePath script w = (.ok (Path.resolve w.workingDirectory script), w) :=
    bind_ok (get_apply w)
  rw [report, he, if_neg (by decide)]
  exact bind_ok hpath

theorem report_returned {result : Report × Discoverer} (he : discoverer.settings.enabled = true)
    (h : Does (discoverer.reportOn (Path.resolve w.workingDirectory script)) w result w.root) :
    Does (discoverer.report script) w result w.root := by
  obtain ⟨w₁, hx, he₁⟩ := h
  refine ⟨w₁, ?_, he₁⟩
  rw [report_eq he, bind_ok (attempt_ok hx)]
  rfl

theorem report_failed {failure : Failure} (he : discoverer.settings.enabled = true)
    (h : Fails (discoverer.reportOn (Path.resolve w.workingDirectory script)) w failure w.root) :
    Does (discoverer.report script) w (.empty, discoverer) w.root := by
  obtain ⟨w₁, hx, he₁⟩ := h
  obtain ⟨w₂, hx₂, he₂⟩ := warnFailed_does .discoveryFailed
    ("import discovery for " ++ script ++ " failed") failure w₁
  rw [he₁.root_eq] at he₂
  refine ⟨w₂, ?_, he₁.trans he₂⟩
  rw [report_eq he, bind_ok (attempt_failed hx)]
  exact bind_ok hx₂

end

/-- The report on a script. A top-level name that cannot be looked up makes it empty; otherwise the
files that are reached were read, and the names that they lead to are sorted. -/
theorem report_sorts (discoverer : Discoverer) {script : String} {w : World}
    (hw : w.root.WellFormed) (he : discoverer.settings.enabled = true)
    (hpy : Path.extension (Path.resolve w.workingDirectory script) = ".py")
    (hfile : Files.isFile (Path.resolve w.workingDirectory script) w = (.ok true, w)) :
    ∃ report other, Does (discoverer.report script) w (report, other) w.root ∧
      let files := reached discoverer.settings.maxDepth w (Path.resolve w.workingDirectory script)
      ((∃ file ∈ files, ∃ top ∈ topsOf w file, top ∈ reservedNames) ∧ report = .empty) ∨
      ((∀ file ∈ files, ∀ top ∈ topsOf w file, top ∉ reservedNames) ∧ report.visited = files ∧
        discoverer.Sorts w (Needed discoverer.settings w files) report) := by
  have hnormal : Path.IsNormal (Path.resolve w.workingDirectory script) := by
    refine (Path.resolve_isNormal w.workingDirectory script).resolve_left fun heq => ?_
    rw [heq] at hpy
    exact absurd hpy (by decide)
  obtain ⟨scan, hscan, hvisited, hnames⟩ :=
    Scan.run_does discoverer.settings.maxDepth hw hnormal
  by_cases hr : ∃ file ∈ reached discoverer.settings.maxDepth w
      (Path.resolve w.workingDirectory script), ∃ top ∈ topsOf w file, top ∈ reservedNames
  · obtain ⟨file, hf, top, ht, htop⟩ := hr
    obtain ⟨failure, herror⟩ := @candidates_error discoverer.settings _ _
      (hnames ▸ List.mem_flatMap.mpr ⟨file, hf, ht⟩) (topLevelName_of_mem_topsOf ht) htop
    exact ⟨.empty, discoverer, report_failed he (reportOn_error hpy hfile hscan herror),
      .inl ⟨⟨file, hf, top, ht, htop⟩, rfl⟩⟩
  · obtain ⟨names, hok, hasc, hmem⟩ := @candidates_ok discoverer.settings _ _ _ hnames
      fun file hf top ht htop => hr ⟨file, hf, top, ht, htop⟩
    obtain ⟨other, hx⟩ := reportOn_ok hpy hfile hscan hok
    exact ⟨_, other, report_returned he hx, .inr ⟨fun file hf top ht htop => hr ⟨file, hf, top, ht,
      htop⟩, hvisited, sorts_sorted hasc hmem scan.visited⟩⟩

end Discoverer

namespace Discovery

/-- Two scripts: one imports `numpy`, its neighbour `os` and `typing`. -/
def neighbours : World := .start (.folder [("W", .folder
  [("a.py", .file [0, 10, 105, 109, 112, 111, 114, 116, 32, 110, 117, 109, 112, 121] ⟨0, 0⟩),
   ("b.py", .file [0, 10, 105, 109, 112, 111, 114, 116, 32, 111, 115, 44, 32, 116, 121, 112, 105,
    110, 103] ⟨0, 0⟩)])])

theorem topsOf_neighbours : topsOf neighbours "/W/a.py" = ["numpy"] ∧
    topsOf neighbours "/W/b.py" = ["os", "typing"] := by
  constructor
  · refine (@topsOf_nul _ _ [0, 10, 105, 109, 112, 111, 114, 116, 32, 110, 117, 109, 112, 121]
      "\nimport numpy".toList (by decide +kernel) (by decide +kernel)).trans ?_
    decide +kernel
  · refine (@topsOf_nul _ _ [0, 10, 105, 109, 112, 111, 114, 116, 32, 111, 115, 44, 32, 116, 121,
      112, 105, 110, 103] "\nimport os, typing".toList (by decide +kernel)
      (by decide +kernel)).trans ?_
    decide +kernel

theorem mem_reached_neighbours {maxDepth : Number} {file : String}
    (h : file ∈ reached maxDepth neighbours "/W/a.py") : file = "/W/a.py" ∨ file = "/W/b.py" := by
  have hfolder : Path.directory "/W/a.py" = "/W" := by decide
  have hfiles (hf : file ∈ filesIn neighbours "/W") : file = "/W/a.py" ∨ file = "/W/b.py" := by
    have hlist : ((Files.list "/W" neighbours).1.toOption.map fun entries =>
        (entries.filter fun entry => entry.2.isFile && Text.endsWith entry.1 ".py").map
          fun entry => Path.join ["/W", entry.1]) = some ["/W/a.py", "/W/b.py"] := by
      decide +kernel
    rw [filesIn] at hf
    cases hx : (Files.list "/W" neighbours).1 with
    | error stop => rw [hx] at hlist; cases hlist
    | ok entries =>
        rw [hx] at hf hlist
        have hmem : file ∈ ["/W/a.py", "/W/b.py"] :=
          Option.some.inj hlist ▸ Text.Utf16.mem_sort.mp hf
        simpa using hmem
  rw [reached, hfolder] at h
  split at h
  · exact .inl (List.mem_singleton.mp h)
  · rcases List.mem_cons.mp h with rfl | h
    · exact .inl rfl
    · exact hfiles (List.mem_filter.mp h).1

end Discovery

namespace Discoverer

open Discovery

/-- Neither script imports a reserved name, so that the names of both are sorted. -/
theorem report_sorts_neighbours :
    neighbours.root.WellFormed ∧ Path.extension (Path.resolve "/W" "a.py") = ".py" ∧
      Files.isFile (Path.resolve "/W" "a.py") neighbours = (.ok true, neighbours) ∧
      ∃ report other, Does ((unverified ⟨true, 3, [("numpy", ["numpy.fft"])], ["os"]⟩).report "a.py")
          neighbours (report, other) neighbours.root ∧
        Sorts (unverified ⟨true, 3, [("numpy", ["numpy.fft"])], ["os"]⟩) neighbours
          (Needed ⟨true, 3, [("numpy", ["numpy.fft"])], ["os"]⟩ neighbours
            (reached 3 neighbours "/W/a.py")) report := by
  have hw : neighbours.root.WellFormed := by decide
  have hpy : Path.extension (Path.resolve "/W" "a.py") = ".py" := by decide
  have hfile : Files.isFile (Path.resolve "/W" "a.py") neighbours = (.ok true, neighbours) := by
    rfl
  obtain ⟨report, other, hx, ⟨⟨file, hf, top, ht, hr⟩, -⟩ | ⟨-, -, hs⟩⟩ :=
    (unverified ⟨true, 3, [("numpy", ["numpy.fft"])], ["os"]⟩).report_sorts hw rfl hpy hfile
  · exfalso
    rcases mem_reached_neighbours hf with rfl | rfl
    · rw [topsOf_neighbours.1, List.mem_singleton] at ht
      subst top
      exact absurd hr (by decide)
    · rw [topsOf_neighbours.2, List.mem_cons, List.mem_singleton] at ht
      rcases ht with rfl | rfl <;> exact absurd hr (by decide)
  · exact ⟨hw, hpy, hfile, report, other, hx, hs⟩

end Discoverer

end ScriptPack

import ScriptPack.Proofs.Discovery.Visiting

/-!
What one more file changes in a report. Wherever it is added, the files that were visited are still
visited and the modules that were found are still found, as long as it imports nothing under a
reserved name; if it does and it is visited, nothing is found at all.
-/

namespace ScriptPack

open Effect Node Lookup

/-- The folder of a normal path is the root or has a normal path. -/
theorem Path.directory_cases {path : String} (hp : IsNormal path) :
    directory path = "/" ∨ IsNormal (directory path) := by
  obtain ⟨all, hne, hsteps, rfl⟩ := hp
  obtain ⟨above, last, rfl⟩ := (List.eq_nil_or_concat all).resolve_left hne
  rw [List.concat_eq_append] at hsteps ⊢
  by_cases hnil : above = []
  · left
    subst above
    rw [List.nil_append] at hsteps ⊢
    rw [directory, names_ofNames hsteps, IsNormal.isAbsolute ⟨[last], by simp, hsteps, rfl⟩]
    rfl
  · right
    have hnormal : IsNormal (ofNames above) :=
      ⟨above, hnil, fun name h => hsteps name (by simp [h]), rfl⟩
    rw [ofNames_concat hnil, hnormal.directory_child (hsteps last (by simp))]
    exact hnormal

theorem Path.isAbsolute_directory {path : String} (hp : IsNormal path) :
    isAbsolute (directory path) = true := by
  rcases directory_cases hp with hroot | hnormal
  · rw [hroot]
    decide
  · exact hnormal.isAbsolute

theorem Files.place?_of_read {w w' : World} {path : String} {content : Bytes}
    (h : read path w = (.ok content, w')) : ∃ loc modified,
      place? w.root true (absolute w path) = .ok (.found loc (.file content modified)) := by
  by_contra hnone
  obtain ⟨failure, hx⟩ := @read_not_file w path fun loc content' modified hplace => by
    cases h.symm.trans (read_file hplace)
    exact hnone ⟨loc, modified, hplace⟩
  cases h.symm.trans hx

/-- The same world with a file put at a location. -/
def World.withFile (w : World) (loc : Location) (content : Bytes) (modified : Stamp) : World :=
  { w with root := put loc (.file content modified) w.root }

@[simp] theorem World.workingDirectory_withFile {w : World} {loc : Location} {content : Bytes}
    {modified : Stamp} : (w.withFile loc content modified).workingDirectory = w.workingDirectory :=
  rfl

namespace Discovery

/-- The top-level names that the text of a file imports. -/
def topsIn (content : Bytes) : List String :=
  (Python.importsOf (Text.Utf8.decode content)).imports.map fun item =>
    Python.topLevelName item.module

variable {w : World} {file path : String} {content content' : Bytes} {modified modified' : Stamp}

theorem topsOf_read (h : Files.read file w = (.ok content, w)) :
    topsOf w file = topsIn content := by
  have hx : ∃ w', Files.imports file w =
      (.ok (Python.importsOf (Text.Utf8.decode content)), w') := by
    rw [Files.imports, bind_ok h]
    simp only
    split
    · obtain ⟨_, w', hlog, -⟩ :=
        Returns.log .parser "syntax errors, falling back to line patterns" [] w
      exact ⟨w', bind_ok hlog⟩
    · exact ⟨w, rfl⟩
  obtain ⟨w', hx⟩ := hx
  rw [topsOf, hx, topsIn]

/-- The folder of a path that can be listed is where the walk along its names ends. -/
theorem leads_of_list {entry : String} {entries : List (String × Node)} {w' : World}
    (hp : Path.IsNormal entry) (hlist : Files.list (Path.directory entry) w = (.ok entries, w')) :
    ∃ loc, Leads w.root (Path.directory entry) loc entries := by
  obtain ⟨loc, hplace⟩ := Files.place?_of_list hlist
  rw [absolute_of_isAbsolute (Path.isAbsolute_directory hp)] at hplace
  rcases Path.directory_cases hp with hroot | hnormal
  · obtain ⟨hwalk, hnul⟩ := place?_eq_walk hplace
    rw [hroot] at hwalk hnul ⊢
    exact ⟨loc, hwalk, hnul⟩
  · exact ⟨loc, .of_place? hnormal.endsWithSeparator hplace⟩

/-- A file in the folder of a path is read under its name. -/
theorem read_in_folder {entry name : String} {entries : List (String × Node)} {loc : Location}
    (hw : w.root.WellFormed) (hp : Path.IsNormal entry)
    (hleads : Leads w.root (Path.directory entry) loc entries)
    (hname : entries.lookup name = some (.file content modified)) :
    Files.read (Path.join [Path.directory entry, name]) w = (.ok content, w) := by
  have hstep := isStep_of_isName ((hw.at? hleads.at?_eq).isName hname)
  obtain ⟨above, hjoin, habove, habs⟩ : ∃ above, Path.join [Path.directory entry, name] =
      above ++ "/" ++ name ∧ Leads w.root above loc entries ∧
      Path.isAbsolute (above ++ "/" ++ name) = true := by
    rcases Path.directory_cases hp with hroot | hnormal
    · refine ⟨"", ?_, hleads.congr (by rw [hroot]; decide) (by simp), by simp [Path.isAbsolute]⟩
      rw [hroot, Path.join_root hstep]
      simp [Path.ofNames, Path.glue]
    · exact ⟨_, hnormal.join_child hstep, hleads, (hnormal.child hstep).isAbsolute⟩
  have hplace := habove.found_child hname hw true (by simp)
  rw [← @absolute_of_isAbsolute w _ habs] at hplace
  rw [hjoin, Files.read_file hplace]

theorem list_of_leads {entry : String} {entries : List (String × Node)} {loc : Location}
    (hp : Path.IsNormal entry) (hleads : Leads w.root (Path.directory entry) loc entries) :
    Files.list (Path.directory entry) w = (.ok entries, w) := by
  refine @Files.list_folder w (Path.directory entry) loc entries ?_
  rw [absolute_of_isAbsolute (Path.isAbsolute_directory hp)]
  rcases Path.directory_cases hp with hroot | hnormal
  · rw [hroot] at hleads ⊢
    exact place?_of_walk (by decide) hleads.2 hleads.1
  · exact hleads.place?_eq hnormal.ne_empty hnormal.endsWithSeparator

theorem mem_filesIn {entry : String} (hw : w.root.WellFormed) (hp : Path.IsNormal entry) :
    file ∈ filesIn w (Path.directory entry) ↔ ∃ loc entries name content modified,
      Leads w.root (Path.directory entry) loc entries ∧
      entries.lookup name = some (.file content modified) ∧ Text.endsWith name ".py" = true ∧
      file = Path.join [Path.directory entry, name] := by
  constructor
  · intro hf
    rw [filesIn] at hf
    cases hx : Files.list (Path.directory entry) w with
    | mk result w' =>
        rw [hx] at hf
        cases result with
        | error stop => cases hf
        | ok entries =>
            obtain ⟨loc, hleads⟩ := leads_of_list hp hx
            obtain ⟨name, content, modified, hmem, hpy, rfl⟩ := Scan.mem_pythonFiles.mp hf
            exact ⟨loc, entries, name, content, modified, hleads,
              (hw.at? hleads.at?_eq).sorted.lookup_of_mem hmem, hpy, rfl⟩
  · rintro ⟨loc, entries, name, content, modified, hleads, hlookup, hpy, rfl⟩
    rw [filesIn, list_of_leads hp hleads]
    exact Scan.mem_pythonFiles.mpr ⟨name, content, modified, mem_of_lookup hlookup, hpy, rfl⟩

/-! ### One more file -/

theorem file_of_bare {node node' : Option Node} (h : node.map bare = node'.map bare) :
    node = some (.file content modified) ↔ node' = some (.file content modified) := by
  have hfile (node : Option Node) : node = some (.file content modified) ↔
      node.map bare = some (.file content modified) := by
    cases node with
    | none => exact Iff.rfl
    | some node => cases node <;> simp [bare]
  rw [hfile, h, ← hfile]

section

variable {above here : Location} {name : String} {entries : List (String × Node)}
  (hw : w.root.WellFormed) (habove : w.root.at? above = some (.folder entries))
  (hnone : entries.lookup name = none)

include hw habove hnone

/-- The files are those that were there, and the new one. -/
theorem at?_withFile :
    (w.withFile (above ++ [name]) content' modified').root.at? here =
        some (.file content modified) ↔
      w.root.at? here = some (.file content modified) ∨
        here = above ++ [name] ∧ content = content' ∧ modified = modified' := by
  have hvacant : w.root.at? (above ++ [name]) = none := by
    rw [at?_folder_child habove, hnone]
  by_cases hp : above ++ [name] <+: here
  · obtain ⟨tail, rfl⟩ := hp
    rw [World.withFile, at?_append_of_eq (at?_put_self hw habove), at?_append, hvacant]
    cases tail with
    | nil => simp [at?_nil, eq_comm]
    | cons step tail => simp [at?_cons, child?, Node.entries]
  · have hbare : ((w.withFile (above ++ [name]) content' modified').root.at? here).map bare =
        (w.root.at? here).map bare := at?_alter_bare hw hp
    have hne : here ≠ above ++ [name] := fun heq => hp (heq ▸ List.prefix_refl _)
    rw [file_of_bare hbare, or_iff_left fun h => hne h.1]

/-- Folders stay folders, and links stay the same links. -/
theorem keeps_withFile :
    Keeps w.root (w.withFile (above ++ [name]) content' modified').root :=
  .put_of_none hw (by rw [at?_folder_child habove, hnone])

theorem keeps_of_withFile :
    Keeps (w.withFile (above ++ [name]) content' modified').root w.root := by
  have hvacant : w.root.at? (above ++ [name]) = none := by
    rw [at?_folder_child habove, hnone]
  refine .of_bare fun here node hat hnode => (at?_alter_bare hw ?_).symm
  rintro ⟨tail, rfl⟩
  rw [World.withFile, at?_append_of_eq (at?_put_self hw habove)] at hat
  cases tail with
  | nil =>
      cases hat
      exact hnode _ _ rfl
  | cons step tail => cases hat

theorem read_withFile (h : Files.read file w = (.ok content, w)) :
    Files.read file (w.withFile (above ++ [name]) content' modified') =
      (.ok content, w.withFile (above ++ [name]) content' modified') := by
  obtain ⟨loc, modified, hplace⟩ := Files.place?_of_read h
  have hat : (w.withFile (above ++ [name]) content' modified').root.at? loc = _ :=
    (at?_withFile hw habove hnone).mpr (.inl (place?_found hplace))
  exact Files.read_file (place?_carry_found (keeps_withFile hw habove hnone) id hplace hat nofun)

/-- The Python files of a folder are those that were in it, and maybe the new one. -/
theorem mem_filesIn_withFile {entry : String} (hp : Path.IsNormal entry) (hname : IsName name) :
    (file ∈ filesIn w (Path.directory entry) →
      file ∈ filesIn (w.withFile (above ++ [name]) content' modified') (Path.directory entry)) ∧
    (file ∈ filesIn (w.withFile (above ++ [name]) content' modified') (Path.directory entry) →
      file ∈ filesIn w (Path.directory entry) ∨
      Files.read file (w.withFile (above ++ [name]) content' modified') =
        (.ok content', w.withFile (above ++ [name]) content' modified')) := by
  have hw' : (w.withFile (above ++ [name]) content' modified').root.WellFormed :=
    hw.put_child habove hname (.file _ _)
  have hkeeps := @keeps_withFile w content' modified' above name entries hw habove hnone
  have hback := @keeps_of_withFile w content' modified' above name entries hw habove hnone
  rw [mem_filesIn hw hp, mem_filesIn hw' hp]
  constructor
  · rintro ⟨loc, all, step, content, modified, hleads, hlookup, hpy, rfl⟩
    obtain ⟨all', hat⟩ := hkeeps.folder loc all hleads.at?_eq
    have hold := (at?_folder_child hleads.at?_eq step).trans hlookup
    have hfile : (w.withFile (above ++ [name]) content' modified').root.at? (loc ++ [step]) =
        some (.file content modified) := (at?_withFile hw habove hnone).mpr (.inl hold)
    rw [at?_folder_child hat] at hfile
    exact ⟨loc, all', step, content, modified, hleads.keep hkeeps hat, hfile, hpy, rfl⟩
  · rintro ⟨loc, all, step, content, modified, hleads, hlookup, hpy, rfl⟩
    rcases (at?_withFile hw habove hnone).mp
      ((at?_folder_child hleads.at?_eq step).trans hlookup) with hat | ⟨-, rfl, -⟩
    · left
      obtain ⟨all', hfolder⟩ := hback.folder loc all hleads.at?_eq
      rw [at?_folder_child hfolder] at hat
      exact ⟨loc, all', step, content, modified, hleads.keep hback hfolder, hat, hpy, rfl⟩
    · exact .inr (read_in_folder hw' hp hleads hlookup)

/-- The files that are reached are still reached, with the same imports; at most the new one comes to
them. -/
theorem reached_withFile {entry : String} {maxDepth : Number} (hp : Path.IsNormal entry)
    (hname : IsName name) (hread : Files.read entry w = (.ok content, w)) :
    (∀ file ∈ reached maxDepth w entry,
      file ∈ reached maxDepth (w.withFile (above ++ [name]) content' modified') entry ∧
      topsOf (w.withFile (above ++ [name]) content' modified') file = topsOf w file) ∧
    ∀ file ∈ reached maxDepth (w.withFile (above ++ [name]) content' modified') entry,
      file ∈ reached maxDepth w entry ∨
      topsOf (w.withFile (above ++ [name]) content' modified') file = topsIn content' := by
  have hfiles (file : String) :=
    @mem_filesIn_withFile w file content' modified' above name entries hw habove hnone entry hp
      hname
  have hsame {file : String} {content : Bytes} (hread : Files.read file w = (.ok content, w)) :
      topsOf (w.withFile (above ++ [name]) content' modified') file = topsOf w file := by
    rw [topsOf_read hread, topsOf_read (read_withFile hw habove hnone hread)]
  cases hdepth : Number.atMost maxDepth 0 with
  | true =>
      rw [reached_zero hdepth, reached_zero hdepth]
      simp only [List.mem_singleton, forall_eq, true_and, true_or, and_true]
      exact hsame hread
  | false =>
      rw [reached_step hdepth, reached_step hdepth]
      simp only [List.mem_cons, List.mem_filter, bne_iff_ne]
      refine ⟨?_, ?_⟩
      · rintro file (rfl | ⟨hf, hne⟩)
        · exact ⟨.inl rfl, hsame hread⟩
        · obtain ⟨loc, all, step, content, modified, hleads, hlookup, -, heq⟩ :=
            (mem_filesIn hw hp).mp hf
          refine ⟨.inr ⟨(hfiles file).1 hf, hne⟩, ?_⟩
          rw [heq]
          exact hsame (read_in_folder hw hp hleads hlookup)
      · rintro file (rfl | ⟨hf, hne⟩)
        · exact .inl (.inl rfl)
        · rcases (hfiles file).2 hf with hf | hnew
          · exact .inl (.inr ⟨hf, hne⟩)
          · exact .inr (topsOf_read hnew)

end

end Discovery

namespace Discoverer

open Discovery

variable {w : World} {discoverer : Discoverer} {script entry name : String} {above : Location}
  {entries : List (String × Node)} {content : Bytes} {modified : Stamp}

theorem start?_withFile (hw : w.root.WellFormed)
    (habove : w.root.at? above = some (.folder entries)) (hnone : entries.lookup name = none)
    (h : start? w script = some entry) :
    start? (w.withFile (above ++ [name]) content modified) script = some entry ∧
      ∃ content, Files.read entry w = (.ok content, w) := by
  obtain ⟨rfl, hpy, hfile⟩ := start?_eq_some h
  obtain ⟨answer, hx, hiff⟩ := Files.isFile_same (Path.resolve w.workingDirectory script) w
  cases hfile.symm.trans hx
  obtain ⟨loc, content', modified', hplace⟩ := hiff.mp rfl
  obtain ⟨answer', hx', hiff'⟩ := Files.isFile_same (Path.resolve w.workingDirectory script)
    (w.withFile (above ++ [name]) content modified)
  have hread := Files.read_file hplace
  have hread' := @read_withFile w _ _ content modified above name entries hw habove hnone hread
  obtain ⟨loc', modified'', hplace'⟩ := Files.place?_of_read hread'
  have hanswer : answer' = true := hiff'.mpr ⟨loc', content', modified'', hplace'⟩
  have hcheck : (Files.isFile (Path.resolve w.workingDirectory script)
      (w.withFile (above ++ [name]) content modified)).1.toOption = some true := by
    rw [hx', hanswer]
    rfl
  refine ⟨?_, content', hread⟩
  rw [start?, World.workingDirectory_withFile, if_pos ⟨hpy, hcheck⟩]

/-- One more file never shrinks the report of a discoverer with a rule, unless it imports something
under a reserved name. -/
theorem outcome_grows {accepts : String → Except Failure Bool}
    (hrule : discoverer.resolver = .rule accepts) (hw : w.root.WellFormed)
    (habove : w.root.at? above = some (.folder entries)) (hnone : entries.lookup name = none)
    (hname : IsName name) (hplain : ∀ top ∈ topsIn content, top ∉ reservedNames) :
    (discoverer.outcome w script).modules ⊆
        (discoverer.outcome (w.withFile (above ++ [name]) content modified) script).modules ∧
      (discoverer.outcome w script).visited ⊆
        (discoverer.outcome (w.withFile (above ++ [name]) content modified) script).visited := by
  have hempty (h : discoverer.outcome w script = .empty) (report : Report) :
      (discoverer.outcome w script).modules ⊆ report.modules ∧
        (discoverer.outcome w script).visited ⊆ report.visited := by
    rw [h]
    exact ⟨List.nil_subset _, List.nil_subset _⟩
  cases he : discoverer.settings.enabled with
  | false => exact hempty (by rw [outcome, he]; rfl) _
  | true =>
      cases hentry : start? w script with
      | none => exact hempty (outcome_skipped hentry) _
      | some entry =>
          obtain ⟨hentry', content', hread⟩ :=
            @start?_withFile w script entry name above entries content modified hw habove hnone
              hentry
          obtain ⟨hkept, hnew⟩ := @reached_withFile w content' content modified above name entries
            hw habove hnone entry discoverer.settings.maxDepth (isNormal_of_start? hentry) hname
            hread
          by_cases hr : ∃ file ∈ reached discoverer.settings.maxDepth w entry,
              ∃ top ∈ topsOf w file, top ∈ reservedNames
          · obtain ⟨file, hf, top, ht, hmem⟩ := hr
            exact hempty (outcome_reserved he hentry hf ht hmem) _
          · push Not at hr
            obtain ⟨names, houtcome, hnames⟩ := outcome_plain he hentry hr
            obtain ⟨names', houtcome', hnames'⟩ := outcome_plain he hentry' fun file hf top ht => by
              rcases hnew file hf with hf | hnew
              · rw [(hkept file hf).2] at ht
                exact hr file hf top ht
              · exact hplain top (hnew ▸ ht)
            rw [houtcome, houtcome']
            refine ⟨fun module hmodule => ?_, fun file hf => (hkept file hf).1⟩
            obtain ⟨hmem, hopen, haccepts⟩ := mem_sorted_modules.mp hmodule
            refine mem_sorted_modules.mpr ⟨?_, hopen, ?_⟩
            · obtain ⟨file, hf, top, ht, hneeded⟩ := (hnames module).mp hmem
              obtain ⟨hf', hsame⟩ := hkept file hf
              exact (hnames' module).mpr ⟨file, hf', top, hsame.symm ▸ ht, hneeded⟩
            · rw [hrule] at haccepts ⊢
              exact haccepts

/-- Two searches, of which the second one is made after the file was added. -/
theorem report_grows {accepts : String → Except Failure Bool}
    (hrule : discoverer.resolver = .rule accepts) (hw : w.root.WellFormed)
    (habove : w.root.at? above = some (.folder entries)) (hnone : entries.lookup name = none)
    (hname : IsName name) (hplain : ∀ top ∈ topsIn content, top ∉ reservedNames) :
    ∃ report report' other other', Does (discoverer.report script) w (report, other) w.root ∧
      Does (discoverer.report script) (w.withFile (above ++ [name]) content modified)
        (report', other') (put (above ++ [name]) (.file content modified) w.root) ∧
      report.modules ⊆ report'.modules ∧ report.visited ⊆ report'.visited := by
  obtain ⟨other, hx⟩ := discoverer.report_does script hw
  have hw' : (w.withFile (above ++ [name]) content modified).root.WellFormed :=
    hw.put_child habove hname (.file _ _)
  obtain ⟨other', hx'⟩ := discoverer.report_does script hw'
  exact ⟨_, _, other, other', hx, hx',
    outcome_grows hrule hw habove hnone hname hplain⟩

end Discoverer

end ScriptPack

import ScriptPack.Proofs.Cache.Commit
import ScriptPack.Proofs.Discovery.Resolving
import ScriptPack.Proofs.FileSystem.Looking
import ScriptPack.Proofs.Python.Tokens

/-!
Where a module is found. Search paths find a module exactly if below one of them there is a package,
a source or an extension for it (`resolvable_iff`), and since a module below a package needs that
package's folder, they then find all packages around it as well (`resolves_closed`).
-/

namespace ScriptPack

open Effect

namespace Path

variable {name : String}

theorem isStep_of_forall {c : Char} (hc : c ∈ name.toList) (hdot : c ≠ '.')
    (hall : '/' ∉ name.toList) : IsStep name := by
  refine ⟨?_, ?_, ?_, hall⟩
  · rintro rfl
    cases hc
  · rintro rfl
    exact hdot (List.mem_singleton.mp hc)
  · rintro rfl
    rcases List.mem_cons.mp hc with hc | hc
    · exact hdot hc
    · exact hdot (List.mem_singleton.mp hc)

/-- A name, and the name of its source file, lead one step down. -/
theorem isStep_of_name (h : Text.isName name.toList = true) :
    IsStep name ∧ IsStep (name ++ ".py") := by
  have hparts := Python.isNamePart_of_isName h
  obtain ⟨c, rest, hname⟩ := List.exists_cons_of_ne_nil (Python.ne_nil_of_isName h)
  have hc : c ∈ name.toList := hname ▸ List.mem_cons_self
  have hdot : c ≠ '.' := by
    rintro rfl
    exact absurd (hparts '.' hc) (by decide)
  have hslash : '/' ∉ name.toList := fun hmem => absurd (hparts '/' hmem) (by decide)
  refine ⟨isStep_of_forall hc hdot hslash, isStep_of_forall (c := c) ?_ hdot ?_⟩
  · rw [String.toList_append]
    exact List.mem_append_left _ hc
  · rw [String.toList_append, List.mem_append, not_or]
    exact ⟨hslash, by decide⟩

end Path

namespace Discovery

open Files (node?)

/-- The components of a dotted name. -/
def components (module : String) : List String := (Text.parts '.' module.toList).map String.ofList

theorem components_ne_nil (module : String) : components module ≠ [] := by
  simpa [components] using Text.parts_ne_nil '.' module.toList

theorem components_append (module rest : String) :
    components (module ++ "." ++ rest) = components module ++ components rest := by
  rw [components, String.toList_append, String.toList_append, List.append_assoc]
  exact (congrArg (List.map String.ofList) (Text.parts_append '.' module.toList rest.toList)).trans
    List.map_append

/-- What there is below a root for a module with the given components: a folder, a source file, or a
compiled extension in the folder of its packages. -/
inductive Holds (w : World) (root : String) : List String → Prop
  | package {all : List String} {entries : List (String × Node)}
      (h : node? w (Path.join (root :: all)) = some (.folder entries)) : Holds w root all
  | source {packages : List String} {module : String} {content : Bytes} {modified : Stamp}
      (h : node? w (Path.join (root :: (packages ++ [module ++ ".py"]))) =
        some (.file content modified)) :
      Holds w root (packages ++ [module])
  | extension {packages : List String} {module file : String} {entries : List (String × Node)}
      (h : node? w (Path.join (root :: packages)) = some (.folder entries))
      (hfile : file ∈ entries.map Prod.fst) (hfront : (module ++ ".").toList <+: file.toList)
      (hback : ".so".toList <:+ file.toList ∨ ".pyd".toList <:+ file.toList) :
      Holds w root (packages ++ [module])

variable {w : World} {root module : String} {packages first more roots : List String}

/-- Where names behind a root lead somewhere, the first of them lead to a folder. -/
theorem folder_beginning {node : Node} (hfirst : first ≠ []) (hmore : more ≠ [])
    (hsteps : ∀ name ∈ first ++ more, Path.IsStep name)
    (h : node? w (Path.join (root :: (first ++ more))) = some node) :
    ∃ entries, node? w (Path.join (root :: first)) = some (.folder entries) := by
  obtain ⟨hne, hends⟩ :=
    Path.join_plain root hfirst fun name hname => hsteps name (List.mem_append_left _ hname)
  rw [Path.join_append root hfirst hsteps] at h
  exact Files.node?_beginning h hmore (fun name hname => hsteps name (List.mem_append_right _ hname))
    hne hends

/-- Where there is something for a module, there are the folders of the packages around it. -/
theorem Holds.folder (h : Holds w root (first ++ more)) (hfirst : first ≠ []) (hmore : more ≠ [])
    (hnames : ∀ name ∈ first ++ more, Text.isName name.toList = true) :
    ∃ entries, node? w (Path.join (root :: first)) = some (.folder entries) := by
  obtain ⟨init, last, rfl⟩ := List.eq_nil_or_concat more |>.resolve_left hmore
  rw [List.concat_eq_append, ← List.append_assoc] at h hnames
  have hpackages : ∀ name ∈ first ++ init, Path.IsStep name := fun name hname =>
    (Path.isStep_of_name (hnames name (List.mem_append_left _ hname))).1
  have hlast := Path.isStep_of_name (hnames last (by simp))
  -- what stands for the module itself is behind the first names in each case
  have hfile {file : String} {node : Node} (hstep : Path.IsStep file)
      (h : node? w (Path.join (root :: (first ++ init ++ [file]))) = some node) :
      ∃ entries, node? w (Path.join (root :: first)) = some (.folder entries) := by
    rw [List.append_assoc] at h
    refine folder_beginning hfirst (by simp) (fun name hname => ?_) h
    rw [← List.append_assoc] at hname
    exact (List.mem_append.mp hname).elim (hpackages name)
      fun hname => List.mem_singleton.mp hname ▸ hstep
  generalize hall : first ++ init ++ [last] = all at h
  cases h with
  | package h =>
      rw [← hall] at h
      exact hfile hlast.1 h
  | source h =>
      obtain ⟨rfl, hmodule⟩ := List.append_inj' hall rfl
      cases hmodule
      exact hfile hlast.2 h
  | extension h =>
      obtain ⟨rfl, -⟩ := List.append_inj' hall rfl
      by_cases hinit : init = []
      · subst hinit
        rw [List.append_nil] at h
        exact ⟨_, h⟩
      · exact folder_beginning hfirst hinit hpackages h

namespace SearchPaths

theorem isExtension_iff {file : String} : isExtension module file = true ↔
    (module ++ ".").toList <+: file.toList ∧
      (".so".toList <:+ file.toList ∨ ".pyd".toList <:+ file.toList) := by
  rw [isExtension, Text.startsWith, Text.endsWith, Text.endsWith, Bool.and_eq_true, Bool.or_eq_true,
    List.isPrefixOf_iff_prefix, List.isSuffixOf_iff_suffix, List.isSuffixOf_iff_suffix]

/-- Below a root a module is found if there is something for it. -/
theorem finds_iff (roots : List String)
    (hnames : ∀ name ∈ packages ++ [module], Text.isName name.toList = true) :
    (ofRoots roots).finds w packages module root = true ↔ Holds w root (packages ++ [module]) := by
  have hpackages : ∀ name ∈ packages, Path.IsStep name := fun name hname =>
    (Path.isStep_of_name (hnames name (by simp [hname]))).1
  have hmodule := Path.isStep_of_name (hnames module (by simp))
  have hlisted : (ofRoots roots).listed w (Path.join (root :: packages)) =
      ((node? w (Path.join (root :: packages))).elim [] Node.entries).map Prod.fst :=
    Files.list_names _ w
  rw [finds]
  simp only [Files.isFolder_eq, Files.isFile_eq, Except.toOption, Option.getD_some, hlisted,
    Path.join_join root hpackages hmodule.1, Path.join_join root hpackages hmodule.2,
    Bool.or_eq_true, Files.any_isFolder, Files.any_isFile]
  constructor
  · rintro ((⟨entries, h⟩ | ⟨content, modified, h⟩) | h)
    · exact .package h
    · exact .source h
    · obtain ⟨file, hfile, hname⟩ := List.any_eq_true.mp h
      obtain ⟨hfront, hback⟩ := isExtension_iff.mp hname
      cases hfolder : node? w (Path.join (root :: packages)) with
      | none =>
          rw [hfolder] at hfile
          cases hfile
      | some node =>
          rw [hfolder] at hfile
          cases node with
          | folder entries => exact .extension hfolder hfile hfront hback
          | file content modified => cases hfile
          | link target => cases hfile
  · generalize hall : packages ++ [module] = all
    intro h
    cases h with
    | package h => exact .inl (.inl ⟨_, h⟩)
    | source h =>
        obtain ⟨rfl, hlast⟩ := List.append_inj' hall rfl
        cases hlast
        exact .inl (.inr ⟨_, _, h⟩)
    | extension h hfile hfront hback =>
        obtain ⟨rfl, hlast⟩ := List.append_inj' hall rfl
        cases hlast
        refine .inr (List.any_eq_true.mpr ⟨_, ?_, isExtension_iff.mpr ⟨hfront, hback⟩⟩)
        rw [h]
        exact hfile

theorem resolvable_iff (w : World) (roots : List String) (module : String) :
    (ofRoots roots).resolvable w module = true ↔
      (∀ name ∈ components module, Text.isName name.toList = true) ∧
        ∃ root ∈ roots, Holds w root (components module) := by
  have hnames : (Text.parts '.' module.toList).all Text.isName = true ↔
      ∀ name ∈ components module, Text.isName name.toList = true := by
    simp [components]
  rw [resolvable, Bool.and_eq_true, hnames, ← components, List.any_eq_true]
  refine and_congr_right fun hall => exists_congr fun root => and_congr_right fun _ => ?_
  obtain ⟨packages, last, hcomponents⟩ :=
    List.eq_nil_or_concat (components module) |>.resolve_left (components_ne_nil module)
  rw [List.concat_eq_append] at hcomponents
  rw [hcomponents] at hall ⊢
  rw [List.dropLast_concat, List.getLast?_concat, Option.getD_some]
  exact finds_iff roots hall

/-- What search paths answer that have not been asked before. -/
def resolves (roots : List String) (w : World) (module : String) : Except Stop Bool :=
  ((canResolve (ofRoots roots) module w).1).map Prod.fst

theorem resolves_eq (roots : List String) (w : World) (module : String) :
    resolves roots w module = .ok ((ofRoots roots).resolvable w module) := by
  obtain ⟨other, ⟨w', hx, -⟩, -⟩ := (ofRoots roots).canResolve_does module w
  rw [resolves, hx]
  rfl

theorem resolves_iff (roots : List String) (w : World) (module : String) :
    resolves roots w module = .ok true ↔
      (∀ name ∈ components module, Text.isName name.toList = true) ∧
        ∃ root ∈ roots, Holds w root (components module) := by
  rw [resolves_eq, Except.ok.injEq, resolvable_iff]

/-- With a module, search paths find all packages around it; with more search paths everything is still
found; and what is found has names for its components and is held below one of the search paths. -/
theorem resolves_closed (w : World) (roots : List String) (module : String) :
    (∀ rest, resolves roots w (module ++ "." ++ rest) = .ok true →
      resolves roots w module = .ok true) ∧
    (∀ more, roots ⊆ more → resolves roots w module = .ok true →
      resolves more w module = .ok true) ∧
    (resolves roots w module = .ok true →
      (∀ name ∈ components module, Text.isName name.toList = true) ∧
        ∃ root ∈ roots, Holds w root (components module)) := by
  refine ⟨fun rest h => ?_, fun more hsubset h => ?_, (resolves_iff roots w module).mp⟩
  · obtain ⟨hnames, root, hroot, hholds⟩ := (resolves_iff roots w _).mp h
    rw [components_append] at hnames hholds
    obtain ⟨entries, hfolder⟩ :=
      hholds.folder (components_ne_nil module) (components_ne_nil rest) hnames
    exact (resolves_iff roots w module).mpr
      ⟨fun name hname => hnames name (List.mem_append_left _ hname), root, hroot, .package hfolder⟩
  · obtain ⟨hnames, root, hroot, hholds⟩ := (resolves_iff roots w module).mp h
    exact (resolves_iff more w module).mpr ⟨hnames, root, hsubset hroot, hholds⟩

/-- Libraries: a package with an extension in it, a link to the package, and a source. -/
def libraries : World := .start (.folder [("S", .folder
  [("link", .link "pack"), ("pack", .folder [("core.abi3.so", .file [] ⟨0, 0⟩)]),
   ("source.py", .file [] ⟨0, 0⟩)])])

/-- An extension that is found by way of a link, and what follows from it. -/
theorem resolves_closed_libraries :
    resolves ["/none", "/S"] libraries "link.core" = .ok true ∧
      resolves ["/none", "/S"] libraries "link" = .ok true ∧
      resolves ["/S", "/W", "/none"] libraries "link.core" = .ok true ∧
      ∃ root ∈ ["/none", "/S"], Holds libraries root (components "link.core") := by
  have hfound : resolves ["/none", "/S"] libraries "link.core" = .ok true := by decide +kernel
  obtain ⟨-, hmore, hholds⟩ := resolves_closed libraries ["/none", "/S"] "link.core"
  have hpackage := (resolves_closed libraries ["/none", "/S"] "link").1 "core" hfound
  exact ⟨hfound, hpackage, hmore _ (by decide) hfound, (hholds hfound).2⟩

end SearchPaths

end Discovery

end ScriptPack

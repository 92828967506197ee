import ScriptPack.Proofs.Discovery.Discoverer

/-!
What a resolver answers. The answers depend on the files only: neither the lines that were written
nor the listings that are remembered on the way change them, so that a resolver can be described by
the modules that it takes to exist.
-/

namespace ScriptPack

open Effect

/-! ### What an operation finds in the files -/

namespace Files

theorem require_steady (follow : Bool) (path : String) : Steady (require follow path) := by
  refine .bind (.lookup follow path) (.lookup follow path) fun place => ?_
  cases place with
  | found loc node => exact .pure _
  | free loc => exact .failSystem _

theorem list_steady (path : String) : Steady (list path) := by
  refine .bind (require_steady true path) (require_observes true path) fun ⟨loc, node⟩ => ?_
  cases node with
  | folder entries => exact .pure entries
  | file content modified => exact .failSystem _
  | link target => exact .failSystem _

/-- What is listed are the entries of the folder to which the path leads. -/
theorem place?_of_list {path : String} {w w' : World} {entries : List (String × Node)}
    (h : list path w = (.ok entries, w')) :
    ∃ loc, Lookup.place? w.root true (absolute w path) = .ok (.found loc (.folder entries)) := by
  obtain ⟨⟨loc, node⟩, w₁, hx, hrest⟩ := bind_eq_ok h
  cases hp : Lookup.place? w.root true (absolute w path) with
  | error error => cases hx.symm.trans (require_error hp)
  | ok place =>
      cases place with
      | free loc => cases hx.symm.trans (require_free hp)
      | found loc' node' =>
          cases hx.symm.trans (require_found hp)
          cases node with
          | folder entries' =>
              cases hrest
              exact ⟨loc, rfl⟩
          | file content modified => cases hrest
          | link target => cases hrest

theorem isFolder_steady (path : String) : Steady (isFolder path) := by
  refine .bind (.attempt (require_steady true path)) (.attempt (require_observes true path))
    fun result => ?_
  cases result with
  | ok found => exact .pure _
  | error failure => exact .pure _

theorem isFile_steady (path : String) : Steady (isFile path) := by
  refine .bind (.attempt (require_steady true path)) (.attempt (require_observes true path))
    fun result => ?_
  cases result with
  | ok found => exact .pure _
  | error failure => exact .pure _

theorem read_steady (path : String) : Steady (read path) := by
  refine .bind (require_steady true path) (require_observes true path) fun ⟨loc, node⟩ => ?_
  cases node with
  | folder entries => exact .failSystem _
  | file content modified => exact .pure _
  | link target => exact .failSystem _

theorem imports_steady (path : String) : Steady (imports path) := by
  refine .bind (read_steady path) (read_observes path) fun content => ?_
  simp only
  split
  · exact .bind (.of_returns (Returns.log _ _ _)) (Returns.log _ _ _).observes fun _ => .pure _
  · exact .pure _

end Files

namespace Discovery

/-! ### The resolver -/

namespace SearchPaths

/-- The names that a folder is taken to have: those that were remembered, or those it has. -/
def listed (paths : SearchPaths) (w : World) (folder : String) : List String :=
  (paths.listings.lookup folder).getD
    (((Files.list folder w).1.toOption.getD []).map Prod.fst)

/-- Search paths that look in the same places and find the same names there. -/
structure Agree (w : World) (paths other : SearchPaths) : Prop where
  roots : other.roots = paths.roots
  listed : other.listed w = paths.listed w

variable {w w' : World} {paths other : SearchPaths}

theorem Agree.refl (w : World) (paths : SearchPaths) : Agree w paths paths := ⟨rfl, rfl⟩

theorem Agree.trans {third : SearchPaths} (h : Agree w paths other) (h' : Agree w other third) :
    Agree w paths third := ⟨h'.roots.trans h.roots, h'.listed.trans h.listed⟩

theorem listed_steady (he : w.Evolves w.root w') (paths : SearchPaths) :
    paths.listed w' = paths.listed w := by
  funext folder
  rw [listed, listed, Files.list_steady folder w w' he]

/-- Listing a folder. To remember its names changes nothing for later. -/
theorem list_does (paths : SearchPaths) (folder : String) (w : World) :
    ∃ other, Does (paths.list folder) w (paths.listed w folder, other) w.root ∧
      Agree w paths other := by
  rw [list]
  cases hl : paths.listings.lookup folder with
  | some names =>
      have hnames : paths.listed w folder = names := by rw [listed, hl]; rfl
      rw [hnames]
      exact ⟨paths, does_pure _ w, .refl w paths⟩
  | none =>
      have hagree : Agree w paths
          { paths with listings := (folder, paths.listed w folder) :: paths.listings } := by
        refine ⟨rfl, funext fun other => ?_⟩
        by_cases heq : other = folder
        · subst other
          rw [listed, List.lookup_cons_self]
          rfl
        · rw [listed, List.lookup_cons, beq_false_of_ne heq]
          rfl
      have hnames : paths.listed w folder =
          ((Files.list folder w).1.toOption.getD []).map Prod.fst := by rw [listed, hl]; rfl
      refine ⟨_, ?_, hagree⟩
      rw [hnames]
      rcases Files.list_observes folder w with ⟨entries, hx⟩ | ⟨failure, hx⟩
      · obtain ⟨w₁, hx, he⟩ := hx
        rw [hx]
        exact ⟨w₁, (bind_ok (attempt_ok hx)).trans rfl, he⟩
      · obtain ⟨w₁, hx, he⟩ := hx
        rw [hx]
        exact ⟨w₁, (bind_ok (attempt_failed hx)).trans rfl, he⟩

/-- Whether a module is found below a root: as a package, as a source, or as an extension. -/
def finds (paths : SearchPaths) (w : World) (packages : List String) (module root : String) :
    Bool :=
  let folder := Path.join (root :: packages)
  (Files.isFolder (Path.join [folder, module]) w).1.toOption.getD false ||
    (Files.isFile (Path.join [folder, module ++ ".py"]) w).1.toOption.getD false ||
    (paths.listed w folder).any (isExtension module)

/-- Whether a dotted module name is found below one of the roots. -/
def resolvable (paths : SearchPaths) (w : World) (module : String) : Bool :=
  let names := Text.parts '.' module.toList
  names.all Text.isName && paths.roots.any
    (paths.finds w (names.map String.ofList).dropLast ((names.map String.ofList).getLast?.getD ""))

theorem finds_eq (h : Agree w paths other) (he : w.Evolves w.root w') :
    other.finds w' = paths.finds w := by
  funext packages module root
  simp only [finds]
  rw [Files.isFolder_steady _ w w' he, Files.isFile_steady _ w w' he, listed_steady he, h.listed]

theorem resolvable_eq (h : Agree w paths other) (he : w.Evolves w.root w') :
    other.resolvable w' = paths.resolvable w := by
  funext module
  simp only [resolvable]
  rw [finds_eq h he, h.roots]

theorem isUnder_does (paths : SearchPaths) (root : String) (packages : List String)
    (module : String) (w : World) :
    ∃ other, Does (paths.isUnder root packages module) w
      (paths.finds w packages module root, other) w.root ∧ Agree w paths other := by
  obtain ⟨isPackage, w₁, hx₁, he₁⟩ :=
    Files.isFolder_returns (Path.join [Path.join (root :: packages), module]) w
  rw [isUnder, finds]
  simp only [hx₁, Except.toOption, Option.getD_some]
  cases isPackage with
  | true => exact ⟨paths, ⟨w₁, bind_ok hx₁, he₁⟩, .refl w paths⟩
  | false =>
      obtain ⟨isSource, w₂, hx₂, he₂⟩ :=
        Files.isFile_returns (Path.join [Path.join (root :: packages), module ++ ".py"]) w₁
      have hsource := Files.isFile_steady
        (Path.join [Path.join (root :: packages), module ++ ".py"]) w w₁ he₁
      rw [← hsource, hx₂]
      rw [he₁.root_eq] at he₂
      cases isSource with
      | true =>
          exact ⟨paths, ⟨w₂, (bind_ok hx₁).trans (bind_ok hx₂), he₁.trans he₂⟩, .refl w paths⟩
      | false =>
          obtain ⟨other, ⟨w₃, hx₃, he₃⟩, hagree⟩ :=
            paths.list_does (Path.join (root :: packages)) w₂
          have he := he₁.trans he₂
          rw [listed_steady he] at hx₃
          rw [he₂.root_eq] at he₃
          refine ⟨other, ⟨w₃, ?_, he.trans he₃⟩, ?_⟩
          · exact (bind_ok hx₁).trans ((bind_ok hx₂).trans (bind_ok hx₃))
          · refine ⟨hagree.roots, ?_⟩
            rw [← listed_steady he, hagree.listed, listed_steady he]

theorem isUnderAny_does (packages : List String) (module : String) (roots : List String)
    (paths : SearchPaths) (w : World) :
    ∃ other, Does (isUnderAny packages module roots paths) w
      (roots.any (paths.finds w packages module), other) w.root ∧ Agree w paths other := by
  induction roots generalizing paths w with
  | nil => exact ⟨paths, does_pure _ w, .refl w paths⟩
  | cons root rest ih =>
      obtain ⟨other, ⟨w₁, hx, he⟩, hagree⟩ := paths.isUnder_does root packages module w
      rw [isUnderAny, List.any_cons]
      cases hfound : paths.finds w packages module root with
      | true =>
          rw [hfound] at hx
          exact ⟨other, ⟨w₁, bind_ok hx, he⟩, hagree⟩
      | false =>
          rw [hfound] at hx
          obtain ⟨third, ⟨w₂, hx₂, he₂⟩, hagree₂⟩ := ih other w₁
          rw [finds_eq hagree he] at hx₂
          rw [he.root_eq] at he₂
          refine ⟨third, ⟨w₂, (bind_ok hx).trans hx₂, he.trans he₂⟩, ?_⟩
          refine hagree.trans ⟨hagree₂.roots, ?_⟩
          rw [← listed_steady he, hagree₂.listed, listed_steady he]

theorem canResolve_does (paths : SearchPaths) (module : String) (w : World) :
    ∃ other, Does (paths.canResolve module) w (paths.resolvable w module, other) w.root ∧
      Agree w paths other := by
  simp only [canResolve, resolvable]
  cases (Text.parts '.' module.toList).all Text.isName with
  | true => exact isUnderAny_does _ _ _ paths w
  | false => exact ⟨paths, does_pure _ w, .refl w paths⟩

end SearchPaths

namespace Resolver

/-- Whether a resolver takes a module to exist. A rule that fails does not. -/
def accepts (resolver : Resolver) (w : World) (module : String) : Bool :=
  match resolver with
  | rule accepts => (accepts module).toOption.getD false
  | searchPaths paths => paths.resolvable w module

theorem accepts_steady {w w' : World} (he : w.Evolves w.root w') (resolver : Resolver) :
    resolver.accepts w' = resolver.accepts w := by
  cases resolver with
  | rule accepts => rfl
  | searchPaths paths => exact SearchPaths.resolvable_eq (.refl w paths) he

/-- Asking a resolver changes nothing in what it takes to exist. -/
theorem resolves_does (resolver : Resolver) (module : String) (w : World) :
    ∃ other, Does (resolver.resolves module) w (resolver.accepts w module, other) w.root ∧
      ∀ w', w.Evolves w.root w' → other.accepts w' = resolver.accepts w := by
  cases resolver with
  | rule accepts =>
      refine ⟨rule accepts, ?_, fun _ _ => rfl⟩
      simp only [resolves, Resolver.accepts]
      cases accepts module with
      | ok answer => exact does_pure _ w
      | error failure =>
          refine (logFields_does _ _ _ w).bind fun w' he => ?_
          rw [← he.root_eq]
          exact does_pure _ w'
  | searchPaths paths =>
      obtain ⟨other, ⟨w₁, hx, he⟩, hagree⟩ := paths.canResolve_does module w
      refine ⟨searchPaths other, ⟨w₁, bind_ok hx, he⟩, fun w' he' => ?_⟩
      exact SearchPaths.resolvable_eq hagree he'

end Resolver

end Discovery

end ScriptPack

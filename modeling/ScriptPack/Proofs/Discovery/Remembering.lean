import ScriptPack.Proofs.Discovery.Locating

/-!
Search paths remember the names in folders. This does not change what they answer: as long as the files
stay the same, search paths that are asked for one module after the other give to each the answer that
they would give if they were asked for it alone (`asked_alone`).
-/

namespace ScriptPack

open Effect

namespace Discovery.SearchPaths

variable {w w' : World} {paths other : SearchPaths}

/-! ### Answers and files -/

theorem listed_congr (h : w.SameFiles w') (paths : SearchPaths) :
    paths.listed w' = paths.listed w := by
  funext folder
  rw [listed, listed, Files.list_names, Files.list_names, Files.node?_congr h]

theorem finds_congr (h : w.SameFiles w') (paths : SearchPaths) : paths.finds w' = paths.finds w := by
  funext packages module root
  simp only [finds, Files.isFolder_eq, Files.isFile_eq, Files.node?_congr h, listed_congr h]

theorem resolvable_congr (h : w.SameFiles w') (paths : SearchPaths) :
    paths.resolvable w' = paths.resolvable w := by
  funext module
  rw [resolvable, resolvable, finds_congr h]

/-- What search paths agree on does not depend on more than the files. -/
theorem Agree.congr (h : w.SameFiles w') (hagree : Agree w' paths other) : Agree w paths other :=
  ⟨hagree.roots, by rw [← listed_congr h, hagree.listed, listed_congr h]⟩

/-! ### Questions one after the other -/

/-- The answers of search paths that are asked for modules one after the other, for each in some
world. -/
def asked (paths : SearchPaths) : List (World × String) → List (Except Stop Bool)
  | [] => []
  | (w, module) :: rest =>
    match paths.canResolve module w with
    | (.ok (answer, paths), _) => .ok answer :: asked paths rest
    | (.error stop, _) => [.error stop]

/-- One question: the answer is that of the files, and no later one is changed by it. -/
theorem asked_cons (h : w.SameFiles w') (paths : SearchPaths) (module : String)
    (rest : List (World × String)) :
    ∃ other, Agree w paths other ∧
      asked paths ((w', module) :: rest) = .ok (paths.resolvable w module) :: asked other rest := by
  obtain ⟨other, ⟨_, hx, -⟩, hagree⟩ := paths.canResolve_does module w'
  refine ⟨other, hagree.congr h, ?_⟩
  rw [asked, hx, resolvable_congr h]

theorem asked_eq (hagree : Agree w paths other) {queries : List (World × String)}
    (h : ∀ query ∈ queries, w.SameFiles query.1) :
    asked other queries = queries.map fun query => .ok (paths.resolvable w query.2) := by
  -- The listings that are remembered by now agree with the files, which is all that `other` is for.
  induction queries generalizing other with
  | nil => rfl
  | cons query rest ih =>
      obtain ⟨w', module⟩ := query
      obtain ⟨third, hthird, hasked⟩ := asked_cons (h (w', module) List.mem_cons_self) other module rest
      rw [hasked, List.map_cons, ih (hagree.trans hthird) fun q hq => h q (List.mem_cons_of_mem _ hq),
        resolvable_eq hagree (.refl w)]

/-- Search paths answer each question as search paths do that have never been asked, and they always
answer. -/
theorem asked_alone (roots : List String) (w : World) (queries : List (World × String))
    (h : ∀ query ∈ queries, w.SameFiles query.1) :
    ∃ answer : String → Bool, (∀ module, resolves roots w module = .ok (answer module)) ∧
      asked (ofRoots roots) queries = queries.map fun query => .ok (answer query.2) :=
  ⟨(ofRoots roots).resolvable w, resolves_eq roots w, asked_eq (.refl w _) h⟩

/-- Questions about the libraries; time passes before the second one. -/
def questions : List (World × String) :=
  [(libraries, "pack.core"), ({ libraries with stamp := ⟨1, 0⟩ }, "two"), (libraries, "pack.core")]

theorem asked_alone_questions : (∀ query ∈ questions, libraries.SameFiles query.1) ∧
    asked (ofRoots ["/S"]) questions = [.ok true, .ok false, .ok true] := by
  have hsame : ∀ query ∈ questions, libraries.SameFiles query.1 := by
    intro query hquery
    rcases List.mem_cons.mp hquery with rfl | hquery
    · exact ⟨rfl, rfl⟩
    rcases List.mem_pair.mp hquery with rfl | rfl
    · exact ⟨rfl, rfl⟩
    · exact ⟨rfl, rfl⟩
  obtain ⟨answer, halone, hasked⟩ := asked_alone ["/S"] libraries questions hsame
  have hcore : Except.ok (answer "pack.core") = .ok true :=
    (halone "pack.core").symm.trans (by decide +kernel)
  have htwo : Except.ok (answer "two") = .ok false :=
    (halone "two").symm.trans (by decide +kernel)
  refine ⟨hsame, hasked.trans ?_⟩
  simp only [questions, List.map_cons, List.map_nil, hcore, htwo]

end Discovery.SearchPaths

end ScriptPack

import ScriptPack.Proofs.Packaging.Delivering
import ScriptPack.Proofs.Packaging.Provenance

/-!
What a cached folder is delivered as. A folder that an engine has made and its artifact in the cache,
each laid over an output folder with the same contents, leave the same contents.
-/

namespace ScriptPack.Packaging

open Effect Lookup Node Cache

variable {w w' : World} {artifact artifact' output output' : String} {a a' o o' loc : Location}
  {src src' : List (String × Node)} {node : Node}

/-- Two deliveries of the same contents over the same contents. -/
theorem Deliverable.alike (h : Deliverable w artifact output a o src)
    (h' : Deliverable w' artifact' output' a' o' src')
    (hsource : (Node.folder src).contents = (Node.folder src').contents)
    (htarget : (w.root.at? o).map Node.contents = (w'.root.at? o').map Node.contents) :
    ∃ root root' tree tree', Does (deliver artifact output) w () root ∧
      Does (deliver artifact' output') w' () root' ∧ root.at? o = some tree ∧
      root'.at? o' = some tree' ∧ tree.contents = tree'.contents := by
  obtain ⟨root, hdeliver, hcovers, -⟩ := deliver_overlays h
  obtain ⟨root', hdeliver', hcovers', -⟩ := deliver_overlays h'
  obtain ⟨tree, htree, hover⟩ := hcovers.overlay
  obtain ⟨tree', htree', hover'⟩ := hcovers'.overlay
  exact ⟨root, root', tree, tree', hdeliver, hdeliver', htree, htree', hover.contents_eq hover' hsource
    htarget h.free (hcovers.after.at? htree) (hcovers'.after.at? htree')⟩

/-- A folder that was delivered is what is then found at its path, unless a link is. -/
theorem Deliverable.found (h : Deliverable w artifact output a o src)
    (hx : deliver artifact output w = (.ok (), w'))
    (hplace : place? w'.root false (absolute w' artifact) = .ok (.found loc node))
    (hlink : ∀ target, node ≠ .link target) : node = .folder src := by
  obtain ⟨root, hroot, hdoes⟩ := h.delivered
  obtain ⟨w₁, hx₁, he⟩ := hdoes src (.refl src)
  cases hx.symm.trans (h.deliver_eq.trans hx₁)
  obtain ⟨hwritten, -⟩ := h.source.leads h.running.current hroot.keeps hroot.folder
  rw [← he.root_eq, ← he.absolute_eq] at hwritten
  have hfolder := hwritten.place?_folder (absolute_ne_empty h.source.nonempty)
  have hcarry := place?_carry_found (.refl _) (fun _ => rfl) hplace (place?_found hplace)
    fun _ => hlink
  cases hcarry.symm.trans hfolder
  rfl

/-- The delivery with which a build was made. -/
def Build.Delivers (build : Build) (w w' : World) : Prop :=
  deliver build.produced build.request.outputDir w = (.ok (), w') ∧
    w'.Evolves w'.root build.after

/-- Every build of a session was delivered. -/
theorem Session.Step.delivers {s s' : Session} (hstep : Step s s')
    (h : ∀ build ∈ s.builds, ∃ w w', build.Delivers w w') :
    ∀ build ∈ s'.builds, ∃ w w', build.Delivers w w' := by
  cases hstep with
  | elsewhere hu => exact h
  | @packaged engine request discoverer _ result _ _ hq hx =>
      intro build hbuild
      rcases List.mem_append.mp hbuild with hbuild | hbuild
      · exact h build hbuild
      · cases result with
        | error failure => cases hbuild
        | ok result =>
            rw [newBuilds] at hbuild
            split at hbuild
            · rename_i signature modules produced tools delivered hproduce
              split at hbuild
              · cases List.mem_singleton.mp hbuild
                obtain ⟨w₁, w₂, w₃, -, -, hdeliver, he⟩ := delivered_of_built hproduce
                exact ⟨w₂, w₃, hdeliver, he⟩
              · cases hbuild
            · cases hbuild

theorem Session.Run.delivers {s₀ : State} {s : Session} (h : Run ⟨s₀.cache, [], s₀.world⟩ s) :
    ∀ build ∈ s.builds, ∃ w w', build.Delivers w w' := by
  induction h with
  | refl =>
      intro build hbuild
      cases hbuild
  | tail _ hstep ih => exact hstep.delivers ih

/-- A call that reports a cached result has delivered the artifact of an earlier build of the
session. If that build has delivered a folder, then both deliveries leave the same contents over the
same contents. -/
theorem Session.Run.delivers_alike {settings : CacheSettings} {s₀ : State} {s : Session}
    (h₀ : Starts settings s₀) (h : Run ⟨s₀.cache, [], s₀.world⟩ s) {engine : Engine}
    {request : Request} {discoverer : Option Discoverer} {result : Result} {tools : Tools}
    (hx : package engine request ⟨some s.cache, discoverer⟩ s.world = (.ok (.ok result, tools), w))
    (hc : result.cached = true) :
    ∃ artifact w₁ w₂ w₃ w₄, deliver artifact request.outputDir w₁ = (.ok (), w₂) ∧
      ∃ build ∈ s.builds, build.Delivers w₃ w₄ ∧
        ∀ a o src a' o' src', Deliverable w₁ artifact request.outputDir a o src →
          Deliverable w₃ build.produced build.request.outputDir a' o' src' →
          (w₁.root.at? o).map Node.contents = (w₃.root.at? o').map Node.contents →
          ∃ tree tree', w₂.root.at? o = some tree ∧ w₄.root.at? o' = some tree' ∧
            tree.contents = tree'.contents := by
  obtain ⟨entries, hs, hexact⟩ := h.exact (show Starts settings ⟨s₀.cache, s₀.world⟩ from h₀)
  obtain ⟨signature, artifact, tools₁, w₁, w₂, hseek, hdeliver⟩ := delivered_of_cached hx hc
  obtain ⟨signature', artifact', w₁', hseek', he, -, hentry⟩ := seek_cases hs hexact request discoverer
  cases hseek.symm.trans hseek'
  obtain ⟨entry, hmem, -, rfl⟩ := hentry artifact rfl
  obtain ⟨node, hl, hfree, -, build, hbuild, hmakes⟩ := hexact.stored entry hmem
  obtain ⟨w₃, w₄, hbuilt, hafter⟩ := h.delivers build hbuild
  refine ⟨_, w₁, w₂, w₃, w₄, hdeliver, build, hbuild, ⟨hbuilt, hafter⟩,
    fun a o src a' o' src' hcached hfresh htarget => ?_⟩
  -- What is delivered from the cache is the artifact.
  have hartifact : Node.folder src = node := by
    have hid := (hs.consistent.filed entry hmem).isId
    rcases hs.shelf with ⟨-, rfl⟩ | ⟨loc, ho⟩
    · cases hl
    · have ho₁ := ho.same he
      have hplace : place? w₁.root true (absolute w₁ (s.cache.artifact entry)) =
          .ok (.found (loc ++ [entry.cacheId]) node) := by
        rw [Cache.artifact, artifactPath_eq ho.normal (isStep_of_isName hid.isName)]
        refine Files.place?_child_found ho₁.running.wellFormed ho₁.normal ho₁.holds hl true ?_
        rintro - target rfl
        cases hfree
      obtain ⟨hwritten, -⟩ := hcached.source.leads hcached.running.current (.refl _) hcached.folder
      cases hplace.symm.trans (hwritten.place?_folder (absolute_ne_empty hcached.source.nonempty))
      rfl
  -- And that has the contents of what was delivered by the build.
  have hproduced : node.contents = (Node.folder src').contents := by
    obtain ⟨loc, tree, hplace, hcontents⟩ := hmakes.tree
    rw [hafter.root_eq, hafter.absolute_eq] at hplace
    rw [hcontents, hfresh.found hbuilt hplace]
    rintro target rfl
    rw [← hartifact] at hcontents
    cases hcontents
  obtain ⟨root, root', tree, tree', ⟨w₅, hx₅, he₅⟩, ⟨w₆, hx₆, he₆⟩, htree, htree', hsame⟩ :=
    hcached.alike hfresh (hartifact ▸ hproduced) htarget
  cases hdeliver.symm.trans hx₅
  cases hbuilt.symm.trans hx₆
  exact ⟨tree, tree', he₅.root_eq ▸ htree, he₆.root_eq ▸ htree', hsame⟩

end ScriptPack.Packaging

import ScriptPack.Proofs.FileSystem.Confinement

/-!
Trees that are laid over each other. What is at every location determines a tree, and its contents
are determined up to the times of modification. Therefore the laws of `Overlay`, which say for each
location what is there, leave no choice: the order in which entries are laid over others makes no
difference, nor does laying the same tree over another one twice.
-/

namespace ScriptPack.Node

open Lookup

variable {node other upper lower result : Node} {entries entries' rest there merged : List (String × Node)}
  {name : String} {loc : Location} {stamp stamp' : Stamp}

/-! ### Trees by location -/

theorem Sorted.ext (h : Sorted entries) (h' : Sorted entries')
    (heq : ∀ name, entries.lookup name = entries'.lookup name) : entries = entries' := by
  induction entries generalizing entries' with
  | nil =>
      cases entries' with
      | nil => rfl
      | cons e rest' =>
          have hnone := heq e.1
          rw [lookup_cons_eq] at hnone
          cases hnone
  | cons e rest ih =>
      obtain ⟨name, node⟩ := e
      cases entries' with
      | nil =>
          have hnone := heq name
          rw [lookup_cons_eq] at hnone
          cases hnone
      | cons e' rest' =>
          obtain ⟨name', node'⟩ := e'
          rcases name_order name name' with rfl | hlt | hlt
          · have hhead := heq name
            rw [lookup_cons_eq, lookup_cons_eq] at hhead
            rw [Option.some.inj hhead, ih h.tail h'.tail fun key => ?_]
            by_cases hkey : key = name
            · rw [hkey, h.lookup_head_eq_none, h'.lookup_head_eq_none]
            · rw [← lookup_cons_ne hkey, heq, lookup_cons_ne hkey]
          · have hnone := heq name
            rw [lookup_cons_eq, h'.lookup_eq_none_of_lt hlt] at hnone
            cases hnone
          · have hnone := heq name'
            rw [lookup_cons_eq, h.lookup_eq_none_of_lt hlt] at hnone
            cases hnone

/-- Trees are equal if they have the same nodes at all locations. -/
theorem eq_of_bare_eq (h : node.WellFormed) (h' : other.WellFormed)
    (heq : ∀ loc, (node.at? loc).map bare = (other.at? loc).map bare) : node = other := by
  induction node using Node.induct generalizing other with
  | file content modified =>
      cases other with
      | file content' modified' => exact Option.some.inj (heq [])
      | folder entries => cases heq []
      | link target => cases heq []
  | link target =>
      cases other with
      | file content modified => cases heq []
      | folder entries => cases heq []
      | link target' => exact Option.some.inj (heq [])
  | folder entries ih =>
      cases other with
      | file content modified => cases heq []
      | link target => cases heq []
      | folder entries' =>
          refine congrArg _ (Sorted.ext h.sorted h'.sorted fun name => ?_)
          have hbelow (tail : Location) : ((entries.lookup name).bind (·.at? tail)).map bare =
              ((entries'.lookup name).bind (·.at? tail)).map bare := by
            have hat := heq (name :: tail)
            rwa [at?_cons, at?_cons] at hat
          cases hl : entries.lookup name with
          | none =>
              cases hl' : entries'.lookup name with
              | none => rfl
              | some child' =>
                  have hhere := hbelow []
                  rw [hl, hl'] at hhere
                  cases hhere
          | some child =>
              cases hl' : entries'.lookup name with
              | none =>
                  have hhere := hbelow []
                  rw [hl, hl'] at hhere
                  cases hhere
              | some child' =>
                  rw [hl, hl'] at hbelow
                  exact congrArg _ (ih _ (mem_of_lookup hl) (h.lookup hl) (h'.lookup hl') hbelow)

theorem lookup_contentsOf (entries : List (String × Node)) (name : String) :
    (contentsOf entries).lookup name = (entries.lookup name).map contents := by
  induction entries with
  | nil => rfl
  | cons e rest ih =>
      obtain ⟨key, node⟩ := e
      rw [contentsOf]
      by_cases hkey : name = key
      · rw [hkey, lookup_cons_eq, lookup_cons_eq]
        rfl
      · rw [lookup_cons_ne hkey, lookup_cons_ne hkey, ih]

theorem at?_contents (node : Node) (loc : Location) :
    node.contents.at? loc = (node.at? loc).map contents := by
  induction loc generalizing node with
  | nil => rfl
  | cons name tail ih =>
      rw [at?_cons, at?_cons]
      cases node with
      | file content modified => rfl
      | link target => rfl
      | folder entries =>
          rw [contents, child?_folder, child?_folder, lookup_contentsOf]
          cases entries.lookup name with
          | none => rfl
          | some child => exact ih child

theorem contentsOf_eq_map (entries : List (String × Node)) :
    contentsOf entries = entries.map fun e => (e.1, e.2.contents) := by
  induction entries with
  | nil => rfl
  | cons e rest ih => rw [contentsOf, ih, List.map_cons]

theorem WellFormed.contents (h : node.WellFormed) : node.contents.WellFormed := by
  induction h with
  | file content modified => exact .file content _
  | link target => exact .link target
  | folder entries sorted names nodes ih =>
      rw [Node.contents, contentsOf_eq_map]
      refine .folder _ (List.pairwise_map.mpr sorted) ?_ ?_
      · exact List.forall_mem_map.mpr names
      · exact List.forall_mem_map.mpr ih

/-- Trees have the same contents if their nodes differ at most in times of modification. -/
theorem contents_eq_of_bare_eq (h : node.WellFormed) (h' : other.WellFormed)
    (heq : ∀ loc, (node.at? loc).map (·.contents.bare) = (other.at? loc).map (·.contents.bare)) :
    node.contents = other.contents := by
  refine eq_of_bare_eq h.contents h'.contents fun loc => ?_
  rw [at?_contents, at?_contents, Option.map_map, Option.map_map]
  exact heq loc

theorem LinkFree.at? (h : node.LinkFree) (hat : node.at? loc = some other) : other.LinkFree := by
  induction loc generalizing node with
  | nil =>
      cases hat
      exact h
  | cons name tail ih =>
      rw [at?_cons] at hat
      cases node with
      | file content modified => cases hat
      | link target => cases hat
      | folder entries =>
          obtain ⟨child, hl, hat⟩ := Option.bind_eq_some_iff.mp hat
          exact ih (h.of_mem _ (mem_of_lookup hl)) hat

/-- There is no link at any location of a tree. -/
theorem linkFree_of_at? (h : node.WellFormed)
    (hat : ∀ loc target, node.at? loc ≠ some (.link target)) : node.LinkFree := by
  induction node using Node.induct with
  | file content modified => exact .file content modified
  | link target => exact absurd rfl (hat [] target)
  | folder entries ih =>
      have hsorted := h.sorted
      refine .folder entries fun e he => ?_
      have hl := hsorted.lookup_of_mem he
      refine ih e he (h.lookup hl) fun loc target hlink => hat (e.1 :: loc) target ?_
      rw [at?_cons, child?_folder, hl]
      exact hlink

/-! ### Laying one tree over another -/

/-- Nowhere is a folder in one of the trees and something else in the other. -/
def Agrees (upper lower : Node) : Prop :=
  ∀ loc node other, upper.at? loc = some node → lower.at? loc = some other →
    node.isFolder = other.isFolder

/-- One tree lies over another one, or over nothing: its files are there as they are, apart from
their times of modification, its folders are there, and what it does not have is what it was. -/
structure Overlay (stamp : Stamp) (upper : Node) (lower : Option Node) (result : Node) : Prop where
  file : ∀ loc content modified, upper.at? loc = some (.file content modified) →
    result.at? loc = some (.file content stamp)
  folder : ∀ loc, IsFolderAt upper loc → IsFolderAt result loc
  rest : ∀ loc, upper.at? loc = none → result.at? loc = lower.bind (·.at? loc)

/-- Entries lie over others. -/
structure OverlayAll (stamp : Stamp) (upper there merged : List (String × Node)) : Prop where
  laid : ∀ name node, upper.lookup name = some node →
    ∃ result, merged.lookup name = some result ∧ Overlay stamp node (there.lookup name) result
  rest : ∀ name, upper.lookup name = none → merged.lookup name = there.lookup name

theorem Agrees.child {child child' : Node} (h : Agrees (.folder entries) (.folder entries'))
    (hl : entries.lookup name = some child) (hl' : entries'.lookup name = some child') :
    Agrees child child' := by
  intro loc node other hat hat'
  refine h (name :: loc) node other ?_ ?_
  · rw [at?_cons, child?_folder, hl]
    exact hat
  · rw [at?_cons, child?_folder, hl']
    exact hat'

/-- Folders agree if the entries that have the same name do. -/
theorem Agrees.folders (h : ∀ name child child', entries.lookup name = some child →
    entries'.lookup name = some child' → Agrees child child') :
    Agrees (.folder entries) (.folder entries') := by
  intro loc node other hat hat'
  cases loc with
  | nil =>
      cases hat
      cases hat'
      rfl
  | cons name tail =>
      rw [at?_cons, child?_folder] at hat hat'
      obtain ⟨child, hl, hat⟩ := Option.bind_eq_some_iff.mp hat
      obtain ⟨child', hl', hat'⟩ := Option.bind_eq_some_iff.mp hat'
      exact h name child child' hl hl' tail node other hat hat'

theorem Agrees.files (content content' : Bytes) (modified modified' : Stamp) :
    Agrees (.file content modified) (.file content' modified') := by
  intro loc node other hat hat'
  cases loc with
  | nil =>
      cases hat
      cases hat'
      rfl
  | cons name tail => cases hat

theorem Agrees.isFolder_eq (h : Agrees upper lower) : upper.isFolder = lower.isFolder :=
  h [] upper lower rfl rfl

/-- A node can be laid over what may be there: that has no links, and kinds agree. -/
def Coverable (node : Node) (there : Option Node) : Prop :=
  ∀ below, there = some below → below.LinkFree ∧ Agrees node below

theorem Coverable.of_none (node : Node) : Coverable node none := nofun

/-- Where a folder can be laid over another one, its entries can be laid over those of that. -/
theorem Coverable.lookup {child : Node} (h : Coverable (.folder entries) (some (.folder entries')))
    (hl : entries.lookup name = some child) : Coverable child (entries'.lookup name) := by
  intro below hbelow
  obtain ⟨hfree, hagrees⟩ := h _ rfl
  exact ⟨hfree.of_mem _ (mem_of_lookup hbelow), hagrees.child hl hbelow⟩

/-- What was laid over something can be laid over the outcome. -/
theorem Overlay.coverable {lower : Option Node} (h : Overlay stamp upper lower result)
    (hfree : upper.LinkFree) (hc : Coverable upper lower) (hw : result.WellFormed) :
    Coverable upper (some result) := by
  intro below hbelow
  cases hbelow
  refine ⟨linkFree_of_at? hw fun loc target hat => ?_, fun loc node other hat hat' => ?_⟩
  · cases hupper : upper.at? loc with
    | none =>
        rw [h.rest loc hupper] at hat
        obtain ⟨below, rfl, hbelow⟩ := Option.bind_eq_some_iff.mp hat
        cases (hc below rfl).1.at? hbelow
    | some node =>
        cases node with
        | file content modified => cases (h.file loc content modified hupper).symm.trans hat
        | folder entries =>
            obtain ⟨below, hbelow⟩ := h.folder loc ⟨entries, hupper⟩
            cases hbelow.symm.trans hat
        | link aim => cases hfree.at? hupper
  · cases node with
    | file content modified =>
        cases (h.file loc content modified hat).symm.trans hat'
        rfl
    | folder entries =>
        obtain ⟨below, hbelow⟩ := h.folder loc ⟨entries, hat⟩
        cases hbelow.symm.trans hat'
        rfl
    | link aim => cases hfree.at? hat

/-- A file lies over a file or over nothing. -/
theorem Overlay.of_file (content : Bytes) (modified : Stamp) {lower : Option Node}
    (h : ∀ node, lower = some node → node.isFolder = false) :
    Overlay stamp (.file content modified) lower (.file content stamp) := by
  refine ⟨fun loc content' modified' hat => ?_, fun loc hat => ?_, fun loc hat => ?_⟩
  · cases loc with
    | nil =>
        cases hat
        rfl
    | cons name tail => cases hat
  · obtain ⟨entries, hat⟩ := hat
    cases loc with
    | nil => cases hat
    | cons name tail => cases hat
  · cases loc with
    | nil => cases hat
    | cons name tail =>
        cases lower with
        | none => rfl
        | some node =>
            cases node with
            | folder entries => cases h _ rfl
            | file content' modified' => rfl
            | link target => rfl

namespace OverlayAll

theorem nil (stamp : Stamp) (there : List (String × Node)) : OverlayAll stamp [] there there :=
  ⟨fun name node hl => (by cases hl), fun name hl => rfl⟩

/-- The first entry is laid over what is there, and the other ones over the outcome. -/
theorem cons (hs : Sorted there) (hnone : rest.lookup name = none)
    (h : Overlay stamp node (there.lookup name) result)
    (hrest : OverlayAll stamp rest (setEntry name result there) merged) :
    OverlayAll stamp ((name, node) :: rest) there merged := by
  refine ⟨fun key new hl => ?_, fun key hl => ?_⟩
  · by_cases hkey : key = name
    · subst hkey
      rw [lookup_cons_eq, Option.some.injEq] at hl
      subst hl
      refine ⟨result, ?_, h⟩
      rw [hrest.rest key hnone, lookup_setEntry hs, if_pos rfl]
    · rw [lookup_cons_ne hkey] at hl
      obtain ⟨laid, hlaid, hover⟩ := hrest.laid key new hl
      rw [lookup_setEntry hs, if_neg hkey] at hover
      exact ⟨laid, hlaid, hover⟩
  · have hkey : key ≠ name := by
      rintro rfl
      rw [lookup_cons_eq] at hl
      cases hl
    rw [lookup_cons_ne hkey] at hl
    rw [hrest.rest key hl, lookup_setEntry hs, if_neg hkey]

theorem congr (h : OverlayAll stamp entries there merged)
    (heq : ∀ name, entries'.lookup name = entries.lookup name) :
    OverlayAll stamp entries' there merged :=
  ⟨fun name node hl => h.laid name node (heq name ▸ hl), fun name hl => h.rest name (heq name ▸ hl)⟩

/-- A folder lies over a folder, or over nothing, if its entries lie over those of that. -/
theorem overlay {lower : Option Node} (h : OverlayAll stamp entries there merged)
    (hlower : lower = some (.folder there) ∨ lower = none ∧ there = []) :
    Overlay stamp (.folder entries) lower (.folder merged) := by
  have hbelow (name : String) (tail : Location) : lower.bind (·.at? (name :: tail)) =
      (there.lookup name).bind (·.at? tail) := by
    rcases hlower with rfl | ⟨rfl, rfl⟩
    · rw [Option.bind_some, at?_cons, child?_folder]
    · rfl
  refine ⟨fun loc content modified hat => ?_, fun loc hat => ?_, fun loc hat => ?_⟩
  · cases loc with
    | nil => cases hat
    | cons name tail =>
        rw [at?_cons, child?_folder] at hat ⊢
        obtain ⟨node, hl, hat⟩ := Option.bind_eq_some_iff.mp hat
        obtain ⟨result, hresult, hover⟩ := h.laid name node hl
        rw [hresult]
        exact hover.file tail content modified hat
  · cases loc with
    | nil => exact ⟨merged, rfl⟩
    | cons name tail =>
        obtain ⟨below, hat⟩ := hat
        rw [at?_cons, child?_folder] at hat
        obtain ⟨node, hl, hat⟩ := Option.bind_eq_some_iff.mp hat
        obtain ⟨result, hresult, hover⟩ := h.laid name node hl
        obtain ⟨below', hat'⟩ := hover.folder tail ⟨below, hat⟩
        refine ⟨below', ?_⟩
        rw [at?_cons, child?_folder, hresult]
        exact hat'
  · cases loc with
    | nil => cases hat
    | cons name tail =>
        rw [at?_cons, child?_folder] at hat ⊢
        rw [hbelow]
        cases hl : entries.lookup name with
        | none => rw [h.rest name hl]
        | some node =>
            obtain ⟨result, hresult, hover⟩ := h.laid name node hl
            rw [hl] at hat
            rw [hresult]
            exact hover.rest tail hat

end OverlayAll

/-! ### There is only one outcome -/

/-- A tree is laid over what is at a location. Nothing else is changed, but missing folders above the
location are made. -/
structure Covers (stamp : Stamp) (loc : Location) (upper root root' : Node) : Prop
    extends Confined loc root root' where
  overlay : ∃ tree, root'.at? loc = some tree ∧ Overlay stamp upper (root.at? loc) tree

section

variable {view : Node → Node} {root root' tree tree' : Node}
  (hview : ∀ entries entries', view (.folder entries) = view (.folder entries'))

include hview in
/-- Seen without times of modification, or with the same one, two overlays by trees with the same
contents are the same if what they leave is. -/
theorem Overlay.view_eq {upper' : Node} {lower lower' : Option Node}
    (h : Overlay stamp upper lower tree) (h' : Overlay stamp' upper' lower' tree')
    (hsame : upper.contents = upper'.contents) (hfree : upper.LinkFree)
    (hfile : ∀ content, view (.file content stamp) = view (.file content stamp'))
    (hrest : ∀ loc, upper.at? loc = none →
      (lower.bind (·.at? loc)).map view = (lower'.bind (·.at? loc)).map view) (loc : Location) :
    (tree.at? loc).map view = (tree'.at? loc).map view := by
  have hat' : (upper.at? loc).map contents = (upper'.at? loc).map contents := by
    rw [← at?_contents, hsame, at?_contents]
  cases hat : upper.at? loc with
  | none =>
      rw [hat] at hat'
      rw [h.rest loc hat, h'.rest loc (Option.map_eq_none_iff.mp hat'.symm), hrest loc hat]
  | some node =>
      rw [hat] at hat'
      obtain ⟨node', hnode', hcontents⟩ := Option.map_eq_some_iff.mp hat'.symm
      cases node with
      | file content modified =>
          cases node' with
          | folder entries => cases hcontents
          | link target => cases hcontents
          | file content' modified' =>
              cases hcontents
              rw [h.file loc content modified hat, h'.file loc content modified' hnode']
              exact congrArg some (hfile content)
      | folder entries =>
          cases node' with
          | file content modified => cases hcontents
          | link target => cases hcontents
          | folder entries' =>
              obtain ⟨below, hbelow⟩ := h.folder loc ⟨entries, hat⟩
              obtain ⟨below', hbelow'⟩ := h'.folder loc ⟨entries', hnode'⟩
              rw [hbelow, hbelow']
              exact congrArg some (hview below below')
      | link target => cases hfree.at? hat

include hview in
/-- Trees with something at a location have folders above it. They look the same if they do at the
location and beside it. -/
theorem view_eq_of_apart (h : root.at? loc = some tree) (h' : root'.at? loc = some tree')
    (haside : ∀ other, ¬loc <+: other → ¬other <+: loc → root.at? other = root'.at? other)
    (hover : ∀ tail, (tree.at? tail).map view = (tree'.at? tail).map view) (other : Location) :
    (root.at? other).map view = (root'.at? other).map view := by
  by_cases hunder : loc <+: other
  · obtain ⟨tail, rfl⟩ := hunder
    rw [at?_append_of_eq h, at?_append_of_eq h']
    exact hover tail
  · by_cases habove : other <+: loc
    · obtain ⟨tail, rfl⟩ := habove
      cases tail with
      | nil =>
          rw [List.append_nil] at hunder
          exact absurd (List.prefix_refl other) hunder
      | cons name tail =>
          obtain ⟨entries, hat⟩ := exists_folder_of_at?_append h
          obtain ⟨entries', hat'⟩ := exists_folder_of_at?_append h'
          rw [hat, hat']
          exact congrArg some (hview entries entries')
    · rw [haside other hunder habove]

end

/-- Trees with the same contents, laid over the same contents, leave the same contents. -/
theorem Overlay.contents_eq {upper' tree tree' : Node} {lower lower' : Option Node}
    (h : Overlay stamp upper lower tree) (h' : Overlay stamp' upper' lower' tree')
    (hsame : upper.contents = upper'.contents) (hlower : lower.map contents = lower'.map contents)
    (hfree : upper.LinkFree) (hw : tree.WellFormed) (hw' : tree'.WellFormed) :
    tree.contents = tree'.contents := by
  refine contents_eq_of_bare_eq hw hw'
    (h.view_eq (fun _ _ => rfl) h' hsame hfree (fun _ => rfl) fun loc _ => ?_)
  cases lower with
  | none =>
      rw [Option.map_eq_none_iff.mp hlower.symm]
  | some below =>
      obtain ⟨below', rfl, hbelow⟩ := Option.map_eq_some_iff.mp hlower.symm
      have hat : (below.at? loc).map contents = (below'.at? loc).map contents := by
        rw [← at?_contents, ← hbelow, at?_contents]
      rw [Option.bind_some, Option.bind_some, ← Function.comp_def, ← Option.map_map, hat,
        Option.map_map]

namespace Covers

variable {root root' root'' : Node}

theorem unique (h : Covers stamp loc upper root root') (h' : Covers stamp loc upper root root'')
    (hfree : upper.LinkFree) : root' = root'' := by
  obtain ⟨tree, hat, hover⟩ := h.overlay
  obtain ⟨tree', hat', hover'⟩ := h'.overlay
  refine eq_of_bare_eq h.after h'.after ?_
  refine view_eq_of_apart (fun _ _ => rfl) hat hat' (fun other hp hp' => ?_) ?_
  · rw [h.aside other hp hp', h'.aside other hp hp']
  · exact hover.view_eq (fun _ _ => rfl) hover' rfl hfree (fun _ => rfl) fun _ _ => rfl

/-- Laid over the same place a second time, at another time perhaps, a tree changes no contents. -/
theorem again (h : Covers stamp loc upper root root') (h' : Covers stamp' loc upper root' root'')
    (hfree : upper.LinkFree) : root''.contents = root'.contents := by
  obtain ⟨tree, hat, hover⟩ := h.overlay
  obtain ⟨tree', hat', hover'⟩ := h'.overlay
  refine contents_eq_of_bare_eq h'.after h.after ?_
  refine view_eq_of_apart (fun _ _ => rfl) hat' hat h'.aside ?_
  refine hover'.view_eq (fun _ _ => rfl) hover rfl hfree (fun _ => rfl) fun loc hnone => ?_
  rw [hat, Option.bind_some, hover.rest loc hnone]

end Covers

end ScriptPack.Node

import ScriptPack.Proofs.FileSystem.Overlay

/-!
Copying a tree without links to a name that may be taken. It is laid over what is there if that has
no links either and is of the same kind wherever both have something: then nothing on the way fails.
-/

namespace ScriptPack

open Node Lookup Effect

namespace Node

variable {node : Node} {entries : List (String × Node)} {name : String} {root new : Node}
  {loc : Location} {path : String}

theorem Coverable.linkless (h : Coverable node (entries.lookup name)) :
    Files.Linkless entries name := fun there hl => (h there hl).1

/-- A path to a folder leads to it when one of its entries is replaced. -/
theorem Extends.leads_put (h : Extends (loc ++ [name]) root (put (loc ++ [name]) new root))
    (hl : Leads root path loc entries) :
    Leads (put (loc ++ [name]) new root) path loc (setEntry name new entries) := by
  refine hl.keep h.keeps ?_
  rw [put_child h.before hl.at?_eq]
  exact at?_put_of_some h.before hl.at?_eq

end Node

/-- What holds of all changes that an operation makes holds of what it has done. -/
theorem Effect.Does.moved {α : Type} {x : Effect α} {w : World} {a : α} {root : Node}
    {R : Node → Node → Prop} (h : Does x w a root) (hm : Moves R x w) : R w.root root := by
  obtain ⟨w', hx, he⟩ := h
  rw [Moves, hx, he.root_eq] at hm
  exact hm

namespace Files

variable {w : World} {source path dir name target : String} {loc origin : Location} {node : Node}
  {all entries : List (String × Node)}

/-! ### Merging -/

/-- Merged into a folder, a node is laid over the entry of its name. -/
def Merges (node : Node) : Prop :=
  ∀ w source target name loc entries, w.stepsLeft = none → w.root.WellFormed →
    node.WellFormed → node.LinkFree → target ≠ "" → Leads w.root (absolute w target) loc entries →
    IsName name → Coverable node (entries.lookup name) →
    ∃ result, Overlay w.stamp node (entries.lookup name) result ∧
      Does (mergeNode source (target ++ "/" ++ name) node) w () (put (loc ++ [name]) result w.root)

theorem mergeEntries_overlays (ih : ∀ e ∈ all, Merges e.2) (source : String)
    (hs : w.stepsLeft = none) (hw : w.root.WellFormed) (hall : WellFormed (.folder all))
    (hfree : LinkFree (.folder all)) (ht : target ≠ "")
    (h : Leads w.root (absolute w target) loc entries)
    (hc : ∀ e ∈ all, Coverable e.2 (entries.lookup e.1)) :
    ∃ merged, OverlayAll w.stamp all entries merged ∧
      Does (mergeEntries source target all) w () (put loc (.folder merged) w.root) := by
  induction all generalizing w entries with
  | nil =>
      refine ⟨entries, .nil _ entries, ?_⟩
      rw [put_at? hw h.at?_eq]
      exact does_pure () w
  | cons e rest ihRest =>
      obtain ⟨name, node⟩ := e
      have hhead : (name, node) ∈ (name, node) :: rest := List.mem_cons_self
      have hsorted := hall.sorted
      have hsub : ∀ e ∈ rest, e ∈ (name, node) :: rest := fun e he => List.mem_cons_of_mem _ he
      cases hall with
      | folder _ _ names nodes =>
          have hhere := hc _ hhead
          obtain ⟨result, hover, hdoes⟩ := ih _ hhead w (source ++ "/" ++ name) target name loc
            entries hs hw (nodes _ hhead) (hfree.of_mem _ hhead) ht h (names _ hhead) hhere
          have hextends := hdoes.moved (mergeNode_extends node w (source ++ "/" ++ name) target name
            loc entries hw (nodes _ hhead) ht h (names _ hhead) hhere.linkless)
          obtain ⟨w₁, hx, he⟩ := hdoes
          have hleads := hextends.leads_put h
          have hw₁ := hextends.after
          rw [← he.root_eq] at hleads hw₁
          rw [← he.absolute_eq target] at hleads
          -- The other entries find what was there before, since their names are different.
          have hlater : ∀ e ∈ rest, Coverable e.2 ((setEntry name result entries).lookup e.1) := by
            intro e he'
            have hne : e.1 ≠ name := fun heq => String.lt_irrefl _ (heq ▸ hsorted.head_lt e he')
            rw [lookup_setEntry (hw.at? h.at?_eq).sorted, if_neg hne]
            exact hc e (hsub e he')
          obtain ⟨merged, hmerged, w₂, hx₂, he₂⟩ := ihRest (fun e he' => ih e (hsub e he'))
            (he.stepsLeft_eq.trans hs) hw₁
            (.folder rest hsorted.tail (fun e he' => names e (hsub e he'))
              fun e he' => nodes e (hsub e he'))
            (.folder rest fun e he' => hfree.of_mem e (hsub e he')) hleads hlater
          rw [he.stamp_eq] at hmerged
          rw [he.root_eq, put_child hw h.at?_eq, put_put hw] at he₂
          refine ⟨merged, .cons (hw.at? h.at?_eq).sorted hsorted.lookup_head_eq_none hover hmerged,
            w₂, ?_, he.trans he₂⟩
          rw [mergeEntries, bind_ok hx]
          exact hx₂

section

variable (hs : w.stepsLeft = none) (hw : w.root.WellFormed) (h : Leads w.root dir loc entries)
  (hn : IsName name) (hpath : absolute w path = dir ++ "/" ++ name)

include hs hw h hn hpath in
/-- The entries of a folder are merged into the folder of a name, which is made if it is missing. -/
theorem mergeFolder_overlays (ih : ∀ e ∈ all, Merges e.2) (source : String)
    (hall : WellFormed (.folder all)) (hfree : LinkFree (.folder all))
    (hc : Coverable (.folder all) (entries.lookup name)) :
    ∃ result, Overlay w.stamp (.folder all) (entries.lookup name) result ∧
      Does ((match entries.lookup name with
          | none => putStep (loc ++ [name]) .empty
          | some (.folder _) => pure ()
          | some _ => failSystem .alreadyExists) >>= fun _ => mergeEntries source path all)
        w () (put (loc ++ [name]) result w.root) := by
  have hne := ne_empty_of_child hpath
  cases hl : entries.lookup name with
  | none =>
      have hput := putStep_does hs (loc ++ [name]) .empty
      have hextends := hput.moved (putStep_extends hw (by simp) (isName_of_mem_child hw h hn)
        wellFormed_empty ((at?_folder_child h.at?_eq name).trans hl))
      obtain ⟨w₁, hx, he⟩ := hput
      have hleads := hextends.leads_empty h rfl
      have hw₁ := hextends.after
      rw [← he.root_eq] at hleads hw₁
      rw [← hpath, ← he.absolute_eq path] at hleads
      obtain ⟨merged, hmerged, w₂, hx₂, he₂⟩ := mergeEntries_overlays ih source
        (he.stepsLeft_eq.trans hs) hw₁ hall hfree hne hleads fun e _ => .of_none e.2
      rw [he.stamp_eq] at hmerged
      rw [he.root_eq, put_put hw] at he₂
      exact ⟨.folder merged, hmerged.overlay (.inr ⟨rfl, rfl⟩), w₂, (bind_ok hx).trans hx₂,
        he.trans he₂⟩
  | some there =>
      rw [hl] at hc
      have hkind := (hc there rfl).2.isFolder_eq
      cases there with
      | file content modified => cases hkind
      | link target => cases hkind
      | folder below =>
          have hleads := h.folder_child hw hl
          rw [← hpath] at hleads
          obtain ⟨merged, hmerged, hdoes⟩ := mergeEntries_overlays ih source hs hw hall hfree hne
            hleads fun e he => hc.lookup (hall.sorted.lookup_of_mem he)
          exact ⟨.folder merged, hmerged.overlay (.inl rfl), hdoes⟩

include hs hw h hn hpath in
/-- A file is written over a file or to a free name. -/
theorem writeFile_overlays (content : Bytes) (modified : Stamp)
    (hc : Coverable (.file content modified) (entries.lookup name)) :
    Overlay w.stamp (.file content modified) (entries.lookup name) (.file content w.stamp) ∧
      Does (writeFile path content) w () (put (loc ++ [name]) (.file content w.stamp) w.root) := by
  have hkind (there : Node) (hl : entries.lookup name = some there) : there.isFolder = false :=
    (hc there hl).2.isFolder_eq.symm
  refine ⟨.of_file content modified hkind, ?_⟩
  have hplace := place?_linkless hw h hn hc.linkless hpath true
  cases hl : entries.lookup name with
  | none =>
      rw [hl] at hplace
      exact writeFile_does hs hw hplace nofun content
  | some there =>
      rw [hl] at hplace
      refine writeFile_does hs hw hplace (fun loc' below heq => ?_) content
      cases heq
      cases hkind _ hl

end

/-- Copying a tree without links into a folder lays it over the entry of its name. -/
theorem mergeNode_overlays (node : Node) : Merges node := by
  induction node using Node.induct with
  | file content modified =>
      intro w source target name loc entries hs hw _ _ ht h hn hc
      have hpath := absolute_behind (w := w) ht name
      obtain ⟨hover, hdoes⟩ := writeFile_overlays hs hw h hn hpath content modified hc
      refine ⟨_, hover, ?_⟩
      rw [mergeNode, Does, bind_ok (lookup_ok (place?_linkless hw h hn hc.linkless hpath true))]
      cases hl : entries.lookup name with
      | none => exact hdoes
      | some there =>
          have hkind := (hc there hl).2.isFolder_eq
          cases there with
          | file content' modified' => exact hdoes
          | link aim => exact hdoes
          | folder below => cases hkind
  | link aim =>
      intro w source target name loc entries _ _ _ hfree
      cases hfree
  | folder all ih =>
      intro w source target name loc entries hs hw hall hfree ht h hn hc
      have hpath := absolute_behind (w := w) ht name
      have hplace := place?_linkless hw h hn hc.linkless hpath
      obtain ⟨result, hover, hdoes⟩ := mergeFolder_overlays hs hw h hn hpath ih source hall hfree hc
      refine ⟨result, hover, ?_⟩
      rw [mergeNode, Does, bind_ok (lookup_ok (hplace true))]
      cases hl : entries.lookup name with
      | none =>
          rw [hl] at hplace hdoes
          simp only
          rw [bind_ok (lookup_ok (hplace false))]
          exact hdoes
      | some there =>
          have hkind := (hc there hl).2.isFolder_eq
          rw [hl] at hdoes
          cases there with
          | file content modified => cases hkind
          | link aim => cases hkind
          | folder below => exact hdoes

/-! ### Copying -/

section

variable (hs : w.stepsLeft = none) (hw : w.root.WellFormed) (h : Leads w.root dir loc entries)
  (hn : IsName name) (hpath : absolute w path = dir ++ "/" ++ name)
  (hc : Coverable node (entries.lookup name))

include hs hw h hn hpath in
theorem removeStep_writeFile (content : Bytes) (there : Node)
    (hl : entries.lookup name = some there) (hfile : there.isFile = true) :
    Does (do removeStep (loc ++ [name]); writeFile path content) w ()
      (put (loc ++ [name]) (.file content w.stamp) w.root) := by
  have hat := (at?_folder_child h.at?_eq name).trans hl
  cases there with
  | folder below => cases hfile
  | link aim => cases hfile
  | file content' modified =>
      have hremove := removeStep_does hs (loc ++ [name])
      have hextends := hremove.moved (removeStep_extends hw (by simp) hat)
      refine hremove.bind fun w₁ he => ?_
      have hw₁ := hextends.after
      obtain ⟨entries', h₁, -⟩ := hextends.leads h
      rw [← he.root_eq] at hw₁ h₁
      have hnone : entries'.lookup name = none := by
        rw [← at?_folder_child h₁.at?_eq, he.root_eq]
        exact at?_remove_self hw (by simp)
      obtain ⟨-, hdoes⟩ := writeFile_overlays (he.stepsLeft_eq.trans hs) hw₁ h₁ hn
        ((he.absolute_eq path).trans hpath) content modified (hnone ▸ .of_none _)
      have hput : put (loc ++ [name]) (.file content w.stamp) (w.root.remove (loc ++ [name])) =
          put (loc ++ [name]) (.file content w.stamp) w.root := alter_alter hw (by simp)
      rw [he.stamp_eq, he.root_eq, hput] at hdoes
      exact hdoes

include hs hw h hn hpath hc in
theorem copyNode_overlays (source : String) (hnode : node.WellFormed) (hfree : node.LinkFree) :
    ∃ result, Overlay w.stamp node (entries.lookup name) result ∧
      Does (copyNode source path node) w () (put (loc ++ [name]) result w.root) := by
  cases node with
  | link aim => cases hfree
  | folder all =>
      obtain ⟨result, hover, hdoes⟩ := mergeFolder_overlays hs hw h hn hpath
        (fun e _ => mergeNode_overlays e.2) source hnode hfree hc
      refine ⟨result, hover, ?_⟩
      rw [copyNode, Does, bind_congr_apply (makeFolders_linkless hw h hn hc.linkless hpath)]
      exact hdoes
  | file content modified =>
      obtain ⟨hover, hdoes⟩ := writeFile_overlays hs hw h hn hpath content modified hc
      refine ⟨_, hover, ?_⟩
      rw [copyNode, Does, bind_ok (lookup_ok (place?_linkless hw h hn hc.linkless hpath false))]
      cases hl : entries.lookup name with
      | none => exact hdoes
      | some there =>
          refine removeStep_writeFile hs hw h hn hpath content there hl ?_
          obtain ⟨hthere, hagrees⟩ := hc there hl
          have hkind := hagrees.isFolder_eq
          cases hthere with
          | file content' modified' => rfl
          | folder below nodes => cases hkind

theorem leadsTo_of_found {loc' : Location} {there : Node}
    (hp : place? w.root true (absolute w path) = .ok (.found loc' there)) (hne : loc' ≠ origin) :
    leadsTo origin path w = (.ok false, w) := by
  rw [leadsTo, bind_ok (attempt_ok (require_found hp)), ← beq_false_of_ne hne]
  rfl

include hw h hn hpath hc in
/-- A copy into another place, over the same kinds of nodes, is not refused. -/
theorem checkCopy_same
    (hsource : place? w.root true (absolute w source) = .ok (.found origin node))
    (hdir : place? w.root true (absolute w (Path.directory path)) =
      .ok (.found loc (.folder entries)))
    (hout : ¬origin <+: loc ++ [name])
    (hinside : (source ++ (if Path.endsWithSeparator source then "" else "/")).toList.isPrefixOf
      path.toList = false) : checkCopy true source path w = (.ok (), w) := by
  have hself : loc ++ [name] ≠ origin := fun heq => hout (heq ▸ List.prefix_refl _)
  have hparent : loc ≠ origin := fun heq => hout (heq ▸ List.prefix_append _ _)
  have hplace := place?_linkless hw h hn hc.linkless hpath
  have htarget : checkTarget origin node path w = (.ok (), w) := by
    rw [checkTarget, bind_ok (attempt_ok (lookup_ok (hplace false)))]
    cases hl : entries.lookup name with
    | none => rfl
    | some there =>
        rw [hl] at hplace
        have hkind := (hc there hl).2.isFolder_eq
        simp only
        rw [bind_ok (leadsTo_of_found (hplace true) hself), hkind, Bool.and_not_self,
          Bool.not_and_self]
        rfl
  rw [checkCopy, bind_ok (require_found hsource)]
  simp only
  rw [bind_ok htarget, hinside, Bool.and_false, refuse, if_neg Bool.false_ne_true,
    bind_ok (pure_apply () w), bind_ok (leadsTo_of_found hdir hparent), Bool.not_true,
    Bool.and_false]
  rfl

include hs hw h hn hpath hc in
/-- Copying a tree without links lays it over what is there. -/
theorem copy_overlays
    (hsource : ∀ follow, place? w.root follow (absolute w source) = .ok (.found origin node))
    (hfree : node.LinkFree)
    (hdir : place? w.root true (absolute w (Path.directory path)) =
      .ok (.found loc (.folder entries)))
    (hout : ¬origin <+: loc ++ [name])
    (hinside : (source ++ (if Path.endsWithSeparator source then "" else "/")).toList.isPrefixOf
      path.toList = false) :
    ∃ result, Overlay w.stamp node (entries.lookup name) result ∧
      Does (copy true source path) w () (put (loc ++ [name]) result w.root) := by
  obtain ⟨result, hover, hdoes⟩ := copyNode_overlays hs hw h hn hpath hc source
    (hw.at? (place?_found (hsource true))) hfree
  refine ⟨result, hover, ?_⟩
  rw [copy, Does, bind_ok (checkCopy_same hw h hn hpath hc (hsource true) hdir hout hinside),
    bind_ok (exists?_of_found hdir)]
  simp only [Bool.not_true, Bool.false_eq_true, if_false]
  rw [bind_ok (require_found (hsource false))]
  exact hdoes

end

end Files

end ScriptPack

import ScriptPack.FileSystem.Copy
import ScriptPack.Proofs.FileSystem.MakeFolders

/-!
Copying to a free name of a folder. Everything that is copied lands behind that name: a tree without
links arrives as it is, a link as a link.
-/

namespace ScriptPack

open Node Lookup

/-- A node is a copy of another one, which is exact if that has no links. -/
structure Node.Copies (node copy : Node) : Prop where
  wellFormed : copy.WellFormed
  isFolder : copy.isFolder = node.isFolder
  size : copy.size = node.size
  linkFree : node.LinkFree → copy.LinkFree
  contents : node.LinkFree → copy.contents = node.contents

namespace Node

variable {name : String} {node new : Node} {entries before : List (String × Node)}

/-- Setting a name behind all others adds it at the end. -/
theorem setEntry_last (h : ∀ e ∈ entries, e.1 < name) :
    setEntry name new entries = entries ++ [(name, new)] := by
  induction entries with
  | nil => rfl
  | cons e rest ih =>
      obtain ⟨other, node⟩ := e
      rw [setEntry, alterEntry_after (h _ List.mem_cons_self), List.cons_append]
      exact congrArg _ (ih fun e he => h e (List.mem_cons_of_mem _ he))

theorem lookup_of_all_lt (h : ∀ e ∈ entries, e.1 < name) : entries.lookup name = none := by
  rw [List.lookup_eq_none_iff]
  intro e he
  simpa using fun heq : name = e.1 => String.lt_irrefl _ (heq ▸ h e he)

theorem LinkFree.of_mem (h : LinkFree (.folder entries)) : ∀ e ∈ entries, e.2.LinkFree := by
  cases h with
  | folder _ nodes => exact nodes

/-- Where a link is copied, any link will do. -/
theorem Copies.link (aim goal : String) : Copies (.link aim) (.link goal) where
  wellFormed := .link goal
  isFolder := rfl
  size := rfl
  linkFree h := by cases h
  contents h := by cases h

/-- Entries are copied one by one. -/
def CopiesAll (entries copies : List (String × Node)) : Prop :=
  List.Forall₂ (fun e copy => copy.1 = e.1 ∧ Copies e.2 copy.2) entries copies

theorem CopiesAll.names {copies : List (String × Node)} (h : CopiesAll entries copies) :
    copies.map (·.1) = entries.map (·.1) := by
  induction h with
  | nil => rfl
  | cons he _ ih => rw [List.map_cons, List.map_cons, ih, he.1]

theorem CopiesAll.size {copies : List (String × Node)} (h : CopiesAll entries copies) :
    sizeOfEntries copies = sizeOfEntries entries := by
  induction h with
  | nil => rfl
  | cons he _ ih => rw [sizeOfEntries, sizeOfEntries, ih, he.2.size]

theorem CopiesAll.contents {copies : List (String × Node)} (h : CopiesAll entries copies)
    (hl : ∀ e ∈ entries, e.2.LinkFree) :
    (∀ e ∈ copies, e.2.LinkFree) ∧ contentsOf copies = contentsOf entries := by
  induction h with
  | nil => exact ⟨nofun, rfl⟩
  | @cons e copy rest copies he _ ih =>
      obtain ⟨hfree, hcontents⟩ := ih fun e' he' => hl e' (List.mem_cons_of_mem _ he')
      have hhead := hl e List.mem_cons_self
      refine ⟨fun e' he' => ?_, ?_⟩
      · rcases List.mem_cons.mp he' with rfl | he'
        · exact he.2.linkFree hhead
        · exact hfree e' he'
      · obtain ⟨name, node⟩ := e
        obtain ⟨name', copy⟩ := copy
        obtain ⟨rfl, hc⟩ := he
        rw [contentsOf, contentsOf, hcontents, hc.contents hhead]

/-- A folder with copies of all entries is a copy. -/
theorem CopiesAll.folder {copies : List (String × Node)} (h : CopiesAll entries copies)
    (hw : WellFormed (.folder entries)) : Copies (.folder entries) (.folder copies) := by
  have hnames := h.names
  have hof : ∀ e ∈ copies, e.1 ∈ entries.map (·.1) ∧ e.2.WellFormed := by
    clear hnames hw
    induction h with
    | nil => exact nofun
    | @cons e copy rest copies he _ ih =>
        intro e' he'
        rw [List.map_cons, List.mem_cons]
        rcases List.mem_cons.mp he' with rfl | he'
        · exact ⟨.inl he.1, he.2.wellFormed⟩
        · exact ⟨.inr (ih e' he').1, (ih e' he').2⟩
  refine ⟨.folder copies ?_ (fun e he => ?_) fun e he => (hof e he).2, rfl, h.size,
    fun hl => ?_, fun hl => ?_⟩
  · have hsorted := hw.sorted
    rw [Sorted, ← List.pairwise_map, hnames, List.pairwise_map]
    exact hsorted
  · obtain ⟨e', he', heq⟩ := List.mem_map.mp (hof e he).1
    cases hw with
    | folder _ _ names _ => exact heq ▸ names e' he'
  · exact .folder copies (h.contents hl.of_mem).1
  · rw [Node.contents, Node.contents, (h.contents hl.of_mem).2]

end Node

namespace Files

open Effect

variable {w : World} {source target name : String} {loc : Location} {node : Node}
  {entries : List (String × Node)}

theorem makeLink_does {goal path : String} (hs : w.stepsLeft = none) (hg : goal ≠ "")
    (h : place? w.root false (absolute w path) = .ok (.free loc)) :
    Does (makeLink goal path) w () (put loc (.link goal) w.root) := by
  rw [makeLink, if_neg (by simpa using hg), Does, bind_ok (lookup_ok h)]
  exact putStep_does hs loc _

theorem canonical_ne_empty (root : Node) (path : String) : canonical root path ≠ "" := by
  simp [canonical]

theorem absolute_under (h : Path.isAbsolute target = true) (name : String) :
    absolute w (target ++ "/" ++ name) = target ++ "/" ++ name :=
  IsRooted.absolute_eq (.inr h) name

theorem mergeEntries_fresh (source : String) {all : List (String × Node)}
    (ih : ∀ e ∈ all, ∀ w source target name loc entries, w.stepsLeft = none → w.root.WellFormed →
      e.2.WellFormed → Path.isAbsolute target = true → Leads w.root target loc entries →
      IsName name → entries.lookup name = none →
      ∃ copy, Copies e.2 copy ∧
        Does (mergeNode source (target ++ "/" ++ name) e.2) w () (put (loc ++ [name]) copy w.root))
    (hs : w.stepsLeft = none) (hw : w.root.WellFormed) (hall : WellFormed (.folder all))
    (ht : Path.isAbsolute target = true) (h : Leads w.root target loc entries)
    (hlt : ∀ e ∈ entries, ∀ e' ∈ all, e.1 < e'.1) :
    ∃ copies, CopiesAll all copies ∧
      Does (mergeEntries source target all) w () (put loc (.folder (entries ++ copies)) w.root) := by
  induction all generalizing w entries with
  | nil =>
      refine ⟨[], .nil, ?_⟩
      rw [List.append_nil, put_at? hw h.at?_eq]
      exact does_pure () w
  | cons e rest ih' =>
      obtain ⟨name, node⟩ := e
      have hsorted := hall.sorted
      cases hall with
      | folder _ _ names nodes =>
          have hname := names _ List.mem_cons_self
          have hbefore : ∀ e ∈ entries, e.1 < name := fun e he => hlt e he _ List.mem_cons_self
          have hnone := lookup_of_all_lt hbefore
          obtain ⟨copy, hc, w₁, hx, he⟩ := ih _ List.mem_cons_self w (source ++ "/" ++ name) target
            name loc entries hs hw (nodes _ List.mem_cons_self) ht h hname hnone
          have hput : put (loc ++ [name]) copy w.root =
              put loc (.folder (entries ++ [(name, copy)])) w.root := by
            rw [put_child hw h.at?_eq, setEntry_last hbefore]
          have hk : Keeps w.root (put (loc ++ [name]) copy w.root) :=
            Keeps.put_of_none hw (by rw [at?_folder_child h.at?_eq, hnone])
          have hw₁ := hw.put_child h.at?_eq hname hc.wellFormed
          rw [hput] at he hk hw₁
          have hl₁ := h.keep hk (at?_put_of_some hw h.at?_eq)
          rw [← he.root_eq] at hl₁ hw₁
          obtain ⟨copies, hcs, w₂, hx₂, he₂⟩ := ih'
            (fun e he => ih e (List.mem_cons_of_mem _ he)) (he.stepsLeft_eq.trans hs) hw₁
            (.folder rest hsorted.tail (fun e he => names e (List.mem_cons_of_mem _ he))
              fun e he => nodes e (List.mem_cons_of_mem _ he)) hl₁ (fun e he' e' hrest => by
              rcases List.mem_append.mp he' with he' | he'
              · exact hlt e he' e' (List.mem_cons_of_mem _ hrest)
              · rw [List.mem_singleton.mp he']
                exact hsorted.head_lt e' hrest)
          refine ⟨(name, copy) :: copies, .cons ⟨rfl, hc⟩ hcs, w₂, ?_, ?_⟩
          · rw [mergeEntries, bind_ok hx]
            exact hx₂
          · rw [he.root_eq, put_put hw, List.append_assoc] at he₂
            exact he.trans he₂

/-- A node that is copied to a free name of a folder is there afterwards. -/
theorem mergeNode_fresh (node : Node) : ∀ w source target name loc entries,
    w.stepsLeft = none → w.root.WellFormed → node.WellFormed → Path.isAbsolute target = true →
    Leads w.root target loc entries → IsName name → entries.lookup name = none →
    ∃ copy, Copies node copy ∧
      Does (mergeNode source (target ++ "/" ++ name) node) w () (put (loc ++ [name]) copy w.root) := by
  induction node using Node.induct with
  | file content modified =>
      intro w source target name loc entries hs hw hn ht h hname hl
      have hfree := h.free_child hname hl true
      rw [← absolute_under ht name (w := w)] at hfree
      refine ⟨.file content w.stamp, ⟨.file _ _, rfl, rfl, fun _ => .file _ _, fun _ => rfl⟩, ?_⟩
      rw [mergeNode, Does, bind_ok (lookup_ok hfree)]
      exact writeFile_does hs hw hfree (by simp) content
  | link aim =>
      intro w source target name loc entries hs hw hn ht h hname hl
      have hfree := h.free_child hname hl false
      rw [← absolute_under ht name (w := w)] at hfree
      refine ⟨.link (canonical w.root (if Path.isAbsolute aim then aim
        else Path.directory (absolute w source) ++ "/" ++ aim)), .link _ _, ?_⟩
      rw [mergeNode, Does, bind_ok (get_apply w)]
      simp only
      rw [bind_ok (lookup_ok hfree)]
      exact makeLink_does hs (canonical_ne_empty _ _) hfree
  | folder all ih =>
      intro w source target name loc entries hs hw hn ht h hname hl
      have hfree (follow) := h.free_child hname hl follow
      have hlookup (follow) : place? w.root follow (absolute w (target ++ "/" ++ name)) =
          .ok (.free (loc ++ [name])) := by
        rw [absolute_under ht name]
        exact hfree follow
      obtain ⟨w₁, hx, he⟩ := putStep_does hs (loc ++ [name]) .empty
      have hw₁ := hw.put_child h.at?_eq hname wellFormed_empty
      have hholds : Holds (put (loc ++ [name]) .empty w.root) (target ++ "/" ++ name)
          (loc ++ [name]) [] := .of_free hw (hfree false) []
      rw [← he.root_eq] at hholds hw₁
      have hsep := Path.endsWithSeparator_child target (isStep_of_isName hname)
      have habs : Path.isAbsolute (target ++ "/" ++ name) = true := by
        rw [String.append_assoc]
        exact Path.isAbsolute_append ht _
      obtain ⟨copies, hc, w₂, hx₂, he₂⟩ := mergeEntries_fresh source
        ih (he.stepsLeft_eq.trans hs) hw₁ hn habs (hholds.leads hw₁ hsep) (by simp)
      refine ⟨.folder copies, hc.folder hn, w₂, ?_, ?_⟩
      · rw [mergeNode, bind_ok (lookup_ok (hlookup true))]
        simp only
        rw [bind_ok (lookup_ok (hlookup false))]
        simp only
        rw [bind_ok hx]
        exact hx₂
      · rw [he.root_eq, put_put hw] at he₂
        exact he.trans he₂

theorem require_observes (follow : Bool) (path : String) : Observes (require follow path) := by
  refine .bind (.lookup follow path) fun place => ?_
  cases place with
  | found loc node => exact .pure _
  | free loc => exact .failSystem _

theorem list_observes (path : String) : Observes (list path) := by
  refine .bind (require_observes true path) fun ⟨loc, node⟩ => ?_
  cases node with
  | folder entries => exact .pure entries
  | file content modified => exact .failSystem _
  | link target => exact .failSystem _

theorem refuse_observes (condition : Bool) (error : SystemError) :
    Observes (refuse condition error) := by
  rw [refuse]
  split
  · exact .failSystem error
  · exact .pure ()

theorem leadsTo_observes (origin : Location) (path : String) : Observes (leadsTo origin path) := by
  refine .bind (.attempt (require_observes true path)) fun result => ?_
  cases result with
  | ok found => exact .pure _
  | error failure => exact .pure _

theorem checkTarget_observes (origin : Location) (node : Node) (target : String) :
    Observes (checkTarget origin node target) := by
  refine .bind (.attempt (.lookup false target)) fun result => ?_
  split
  · refine .bind (leadsTo_observes origin target) fun itself => ?_
    refine .bind (refuse_observes _ _) fun _ => ?_
    exact .bind (refuse_observes _ _) fun _ => refuse_observes _ _
  · exact .pure ()
  · exact .pure ()
  · exact .fail _

theorem checkCopy_observes (recursive : Bool) (source target : String) :
    Observes (checkCopy recursive source target) := by
  refine .bind (require_observes true source) fun ⟨origin, node⟩ => ?_
  refine .bind (checkTarget_observes origin node target) fun _ => ?_
  refine .bind (refuse_observes _ _) fun _ => ?_
  refine .bind (leadsTo_observes origin _) fun itself => ?_
  exact .bind (refuse_observes _ _) fun _ => refuse_observes _ _

theorem copyLink_fresh {dir : String} (hs : w.stepsLeft = none) (hw : w.root.WellFormed)
    (hd : Path.IsNormal dir) (h : Holds w.root dir loc entries) (hn : IsName name)
    (hl : entries.lookup name = none) (output aim : String) :
    ∃ goal, Does (copyLink output (dir ++ "/" ++ name) aim) w ()
      (put (loc ++ [name]) (.link goal) w.root) := by
  have hfree := place?_child_free hw hd h hn hl false
  refine ⟨if Path.isAbsolute aim then aim
    else Path.resolve (Path.directory (Path.resolve w.workingDirectory output)) aim, ?_⟩
  rw [copyLink, Does, bind_ok (get_apply w)]
  simp only
  rw [bind_ok (lookup_ok hfree)]
  refine makeLink_does hs ?_ hfree
  split
  · rename_i habs
    rintro rfl
    exact absurd habs (by decide)
  · simp [Path.resolve]

/-- The copy of a checked node to a free name of a folder that is held. -/
theorem copyNode_fresh {dir : String} (hs : w.stepsLeft = none) (hw : w.root.WellFormed)
    (hd : Path.IsNormal dir) (h : Holds w.root dir loc entries) (hn : IsName name)
    (hl : entries.lookup name = none) (output : String) (node : Node) (hnode : node.WellFormed) :
    ∃ new, Copies node new ∧ Does (copyNode output (dir ++ "/" ++ name) node) w ()
      (put (loc ++ [name]) new w.root) := by
  have hstep := isStep_of_isName hn
  have hfree (follow) := place?_child_free hw hd h hn hl follow
  cases node with
  | file content modified =>
      refine ⟨.file content w.stamp, ⟨.file _ _, rfl, rfl, fun _ => .file _ _, fun _ => rfl⟩, ?_⟩
      rw [copyNode, Does, bind_ok (lookup_ok (hfree false))]
      exact writeFile_does hs hw (hfree true) (by simp) content
  | link aim =>
      obtain ⟨goal, hx⟩ := copyLink_fresh hs hw hd h hn hl output aim
      exact ⟨.link goal, .link _ _, hx⟩
  | folder all =>
      obtain ⟨w₁, hx, he⟩ := makeFolders_child hs hw hd h hn hl
      have hw₁ := hw.put_child h.at?_eq hn wellFormed_empty
      have hleads := (h.leads hw hd.endsWithSeparator).free_child hn hl false
      have hholds : Holds (put (loc ++ [name]) .empty w.root) (dir ++ "/" ++ name)
          (loc ++ [name]) [] := .of_free hw hleads []
      rw [← he.root_eq] at hholds hw₁
      obtain ⟨copies, hc, w₂, hx₂, he₂⟩ := mergeEntries_fresh output
        (fun e _ => mergeNode_fresh e.2) (he.stepsLeft_eq.trans hs) hw₁ hnode
        (hd.child hstep).isAbsolute
        (hholds.leads hw₁ (Path.endsWithSeparator_child dir hstep)) (by simp)
      refine ⟨.folder copies, hc.folder hnode, w₂, (bind_ok hx).trans hx₂, ?_⟩
      rw [he.root_eq, put_put hw] at he₂
      exact he.trans he₂

/-- Copying to a free name of a folder that is held. -/
theorem copy_fresh {dir : String} (hs : w.stepsLeft = none) (hw : w.root.WellFormed)
    (hd : Path.IsNormal dir) (h : Holds w.root dir loc entries) (hn : IsName name)
    (hl : entries.lookup name = none) (output : String) :
    (∃ failure, Fails (copy true output (dir ++ "/" ++ name)) w failure w.root) ∨
    ∃ origin node new, place? w.root false (absolute w output) = .ok (.found origin node) ∧
      Copies node new ∧
      Does (copy true output (dir ++ "/" ++ name)) w () (put (loc ++ [name]) new w.root) := by
  rcases checkCopy_observes true output (dir ++ "/" ++ name) w with
    ⟨⟨⟩, w₁, hx, he⟩ | ⟨failure, hf⟩
  · have hs₁ := he.stepsLeft_eq.trans hs
    have hw₁ := hw
    have h₁ := h
    rw [← he.root_eq] at hw₁ h₁
    have hdir : exists? (Path.directory (dir ++ "/" ++ name)) w₁ = (.ok true, w₁) := by
      rw [hd.directory_child (isStep_of_isName hn)]
      exact exists?_of_found (by rw [absolute_normal hd]; exact h₁.found hw₁ true)
    have hcopy : copy true output (dir ++ "/" ++ name) w =
        (do
          let found ← require false output
          copyNode output (dir ++ "/" ++ name) found.2) w₁ := by
      rw [copy, bind_ok hx, bind_ok hdir]
      rfl
    have hsame (follow) : place? w.root follow (absolute w output) =
        place? w₁.root follow (absolute w₁ output) := by
      rw [he.root_eq, he.absolute_eq]
    rw [hsame false]
    have hfails {failure} (h : Fails (copy true output (dir ++ "/" ++ name)) w failure w.root) :
        ∃ failure, Fails (copy true output (dir ++ "/" ++ name)) w failure w.root := ⟨failure, h⟩
    cases hp : place? w₁.root false (absolute w₁ output) with
    | error error =>
        exact .inl (hfails ⟨w₁, hcopy.trans (bind_error (require_error hp)), he⟩)
    | ok place =>
        cases place with
        | free origin =>
            exact .inl (hfails ⟨w₁, hcopy.trans (bind_error (require_free hp)), he⟩)
        | found origin node =>
            obtain ⟨new, hc, w₂, hx₂, he₂⟩ := copyNode_fresh hs₁ hw₁ hd h₁ hn hl output node
              (hw₁.at? (place?_found hp))
            rw [he.root_eq] at he₂
            refine .inr ⟨origin, node, new, rfl, hc, w₂, ?_, he.trans he₂⟩
            rw [hcopy, bind_ok (require_found hp)]
            exact hx₂
  · exact .inl ⟨failure, hf.bind⟩

end Files

end ScriptPack

import ScriptPack.Packaging.Delivery
import ScriptPack.Proofs.Cache.Commit
import ScriptPack.Proofs.FileSystem.Aiming
import ScriptPack.Proofs.FileSystem.Merging
import ScriptPack.Proofs.Path.Joining

/-!
What the delivery of a folder leaves. The folder is laid over the output folder, whatever the order of
its entries; nothing else changes, and delivering it again changes no contents.
-/

namespace ScriptPack

open Effect Node Lookup

/-- A path to a folder that exists or can be made. As it is written and in normal form it aims at the
same location. -/
structure World.Ready (w : World) (path : String) (loc : Location) : Prop where
  nonempty : path ≠ ""
  text : '\x00' ∉ (absolute w path).toList
  written : Aims w.root linkLimit (Path.names (absolute w path)) loc
  normal : Aims w.root linkLimit (Path.names (Store.home w path)) loc

namespace World.Ready

variable {w w' : World} {root : Node} {path : String} {loc : Location}
  {entries : List (String × Node)}

/-- Once the folder is there, the path leads to it. -/
theorem leads (h : w.Ready path loc) (hc : '\x00' ∉ w.workingDirectory.toList)
    (hk : Keeps w.root root) (hat : root.at? loc = some (.folder entries)) :
    Leads root (absolute w path) loc entries ∧ Leads root (Store.home w path) loc entries :=
  ⟨⟨h.written.arrives hk hat, h.text⟩, h.normal.arrives hk hat,
    Store.not_mem_home (by decide) (by decide) hc (Files.not_mem_of_absolute h.text)⟩

theorem keep (h : w.Ready path loc) (hwd : w'.workingDirectory = w.workingDirectory)
    (hk : Keeps w.root w'.root) (hat : w'.root.at? loc = some (.folder entries)) :
    w'.Ready path loc := by
  have habs := absolute_congr hwd path
  have hhome := Store.home_congr hwd path
  exact ⟨h.nonempty, habs ▸ h.text, habs ▸ h.written.keep hk hat, hhome ▸ h.normal.keep hk hat⟩

/-- A path with no link on the way. -/
theorem of_unlinked (hne : path ≠ "") (hnul : '\x00' ∉ (absolute w path).toList)
    (h : Aims w.root 0 (Path.names (absolute w path)) loc) : w.Ready path loc := by
  refine ⟨hne, hnul, h.more _, .more ?_ _⟩
  have hplain := fun n (hn : n ∈ Path.normalNames (Path.isAbsolute path) (Path.names path)) =>
    Path.mem_normalNames_names _ hn
  rw [Store.home, Path.names_under hplain]
  cases habs : Path.isAbsolute path with
  | true =>
      rw [absolute_of_isAbsolute habs] at h
      rw [← List.nil_append (Path.names path)] at h
      exact h.normalNames fun _ => rfl
  | false =>
      rw [absolute_of_relative hne habs, Path.names_append_slash] at h
      exact h.normalNames fun hrooted => absurd hrooted Bool.false_ne_true

end World.Ready

namespace Packaging

open Files

variable {w w' : World} {artifact output : String} {a o : Location} {name : String} {node : Node}
  {src there rest : List (String × Node)} {path : String} {loc : Location}
  {entries : List (String × Node)}

/-! ### Paths of entries -/

theorem absolute_entry (hn : Path.IsStep name) (w : World) (path : String) :
    absolute w (Path.join [path, name]) = Store.home w path ++ "/" ++ name := by
  have habs := Store.absolute_join hn w path ""
  rwa [String.append_empty, String.append_empty] at habs

/-- The folder above an entry is the one of its path. -/
theorem leads_directory (hn : Path.IsStep name) (h : Leads w.root (Store.home w path) loc entries) :
    Path.directory (Path.join [path, name]) ≠ "" ∧
      Leads w.root (absolute w (Path.directory (Path.join [path, name]))) loc entries := by
  rw [Path.directory_join_eq path hn]
  have hplain := fun n (hn : n ∈ Path.normalNames (Path.isAbsolute path) (Path.names path)) =>
    Path.mem_normalNames_names _ hn
  have hhome : Store.home w path = Path.under (if Path.isAbsolute path then "" else
    w.workingDirectory) (Path.normalNames (Path.isAbsolute path) (Path.names path)) := rfl
  generalize Path.normalNames (Path.isAbsolute path) (Path.names path) = kept at hplain hhome ⊢
  generalize Path.isAbsolute path = rooted at hhome ⊢
  by_cases hkept : kept = []
  · subst hkept
    cases rooted with
    | true =>
        have hroot : absolute w "/" = "/" := absolute_of_isAbsolute (by decide)
        have hleads : Leads w.root "/" loc entries := h.congr (by rw [hhome]; rfl) (by decide)
        rw [← hroot] at hleads
        exact ⟨by decide, hleads⟩
    | false =>
        refine ⟨by decide, ?_⟩
        have hdot := h.dot
        rwa [hhome] at hdot
  · have hne := Path.along_ne_empty rooted hkept fun n hn => (hplain n hn).1
    rw [if_neg (by simp [hkept])]
    refine ⟨hne, ?_⟩
    have hsame : absolute w (Path.along rooted kept) = Store.home w path := by
      have habs := Path.isAbsolute_along rooted hplain
      rw [hhome, Path.under_eq _ hkept]
      cases rooted with
      | true =>
          rw [absolute_of_isAbsolute habs]
          rfl
      | false =>
          rw [absolute_of_relative hne habs, Path.along, if_neg Bool.false_ne_true,
            String.empty_append]
          rfl
    rw [hsame]
    exact h

/-- The path of an entry is not, as text, in the place of an entry of another folder, if that folder
is not inside the first one. -/
theorem not_inside (hn : Path.IsStep name) (h : Leads w.root (Store.home w artifact) a src)
    (hfree : LinkFree (.folder src)) (h' : Leads w.root (Store.home w output) o there)
    (hout : ¬a <+: o) :
    ((Path.join [artifact, name] ++
      (if Path.endsWithSeparator (Path.join [artifact, name]) then "" else "/")).toList.isPrefixOf
        (Path.join [output, name]).toList) = false := by
  rw [(Path.join_plain artifact (by simp) (by simpa using hn)).2, if_neg Bool.false_ne_true,
    Bool.eq_false_iff, ne_eq, List.isPrefixOf_iff_prefix]
  intro hinside
  obtain ⟨habs, tail, hsteps, hkept⟩ := Path.steps_of_inside hn hinside
  refine hout (h.location_behind hfree h' ?_ hsteps)
  have hplain (path : String) := fun n
      (hn : n ∈ Path.normalNames (Path.isAbsolute path) (Path.names path)) =>
    Path.mem_normalNames_names _ hn
  rw [Store.home, Store.home, Path.names_under (hplain output), Path.names_under (hplain artifact),
    hkept, habs, List.append_assoc]

/-! ### Entry by entry -/

/-- Two folders, none of which is inside the other one, as the paths of their entries name them. The
first one has no links. -/
structure Beside (w : World) (artifact output : String) (a o : Location)
    (src there : List (String × Node)) : Prop where
  running : w.Running
  source : Leads w.root (Store.home w artifact) a src
  target : Leads w.root (Store.home w output) o there
  free : LinkFree (.folder src)
  out : ¬a <+: o
  into : ¬o <+: a

namespace Beside

theorem ne_nil (h : Beside w artifact output a o src there) : o ≠ [] := by
  rintro rfl
  exact h.into List.nil_prefix

theorem apart (h : Beside w artifact output a o src there) (name : String) :
    ¬a <+: o ++ [name] ∧ ¬o ++ [name] <+: a := by
  refine ⟨fun hp => ?_, fun hp => h.into ((List.prefix_append o [name]).trans hp)⟩
  rcases List.prefix_concat_iff.mp hp with heq | hp
  · exact h.into (heq ▸ List.prefix_append o [name])
  · exact h.out hp

/-- One entry is copied: it is laid over what is there, and all else stays. -/
theorem copy_entry (h : Beside w artifact output a o src there)
    (hl : src.lookup name = some node) (hc : Coverable node (there.lookup name)) :
    ∃ result root, Overlay w.stamp node (there.lookup name) result ∧
      Does (copy true (Path.join [artifact, name]) (Path.join [output, name])) w () root ∧
      root = put o (.folder (setEntry name result there)) w.root ∧ Extends o w.root root ∧
      ∀ w' : World, w.Evolves root w' →
        Beside w' artifact output a o src (setEntry name result there) := by
  have hw := h.running.wellFormed
  have hn : IsName name := (hw.at? h.source.at?_eq).isName hl
  have hstep := isStep_of_isName hn
  have hpath := absolute_entry hstep w output
  have hnode : node.LinkFree := h.free.of_mem _ (mem_of_lookup hl)
  obtain ⟨hne, hdir⟩ := leads_directory hstep h.target
  have hplace := hdir.place?_folder (absolute_ne_empty hne)
  have hsource (follow) : place? w.root follow (absolute w (Path.join [artifact, name])) =
      .ok (.found (a ++ [name]) node) := by
    rw [absolute_entry hstep]
    exact h.source.found_child hl hw follow fun _ target heq => nomatch heq ▸ hnode
  have hout : ¬a ++ [name] <+: o ++ [name] := fun hp =>
    (h.apart name).1 ((List.prefix_append a [name]).trans hp)
  obtain ⟨result, hover, hdoes⟩ := copy_overlays h.running.steps hw h.target hn hpath hc hsource
    hnode hplace hout (not_inside hstep h.source h.free h.target h.out)
  have hextends := hdoes.moved (copy_extends hw h.target hn hc.linkless hpath hne hdir true _)
  refine ⟨result, _, hover, hdoes, put_child hw h.target.at?_eq,
    hextends.weaken h.ne_nil, fun w' he => ?_⟩
  have hroot := he.root_eq
  have hsame := he.workingDirectory_eq
  refine ⟨h.running.evolve he hextends.after ?_, ?_, ?_, h.free, h.out, h.into⟩
  · obtain ⟨top, htop⟩ := h.running.folder
    exact hextends.keeps.folder [] top htop
  · rw [hroot, Store.home_congr hsame]
    refine h.source.keep hextends.keeps ?_
    rw [hextends.toWithin.apart (h.apart name).2 (h.apart name).1, h.source.at?_eq]
  · rw [hroot, Store.home_congr hsame]
    exact hextends.leads_put h.target

/-- Entries are copied one after the other, each of them over what is there. -/
theorem deliverEntries_overlays {es : List (String × Node)}
    (h : Beside w artifact output a o src there) (hes : ∀ e ∈ es, src.lookup e.1 = some e.2)
    (hnodup : (es.map (·.1)).Nodup) (hc : ∀ e ∈ es, Coverable e.2 (there.lookup e.1)) :
    ∃ merged root, OverlayAll w.stamp es there merged ∧
      Does (deliverEntries artifact output (es.map (·.1))) w () root ∧
      root = put o (.folder merged) w.root ∧ Extends o w.root root := by
  induction es generalizing w there with
  | nil =>
      exact ⟨there, w.root, .nil _ there, does_pure () w,
        (put_at? h.running.wellFormed h.target.at?_eq).symm, .refl h.running.wellFormed h.ne_nil⟩
  | cons e rest ih =>
      obtain ⟨name, node⟩ := e
      rw [List.map_cons, List.nodup_cons] at hnodup
      have hsorted := (h.running.wellFormed.at? h.target.at?_eq).sorted
      obtain ⟨result, root, hover, ⟨w₁, hx, he⟩, hroot, hextends, hbeside⟩ :=
        h.copy_entry (hes _ List.mem_cons_self) (hc _ List.mem_cons_self)
      have hlater : ∀ e ∈ rest, Coverable e.2 ((setEntry name result there).lookup e.1) := by
        intro e he'
        have hne : e.1 ≠ name := fun heq => hnodup.1 (List.mem_map.mpr ⟨e, he', heq⟩)
        rw [lookup_setEntry hsorted, if_neg hne]
        exact hc e (List.mem_cons_of_mem _ he')
      obtain ⟨merged, root', hmerged, ⟨w₂, hx₂, he₂⟩, hroot', hextends'⟩ :=
        ih (hbeside w₁ he) (fun e he' => hes e (List.mem_cons_of_mem _ he')) hnodup.2 hlater
      rw [he.stamp_eq] at hmerged
      rw [he.root_eq] at hroot' hextends'
      have hnone : rest.lookup name = none := by
        rw [List.lookup_eq_none_iff]
        intro e he'
        simpa using fun heq : name = e.1 => hnodup.1 (List.mem_map.mpr ⟨e, he', heq.symm⟩)
      refine ⟨merged, root', .cons hsorted hnone hover hmerged, ⟨w₂, ?_, he.trans he₂⟩, ?_,
        hextends.trans hextends'⟩
      · rw [List.map_cons, deliverEntries, bind_ok hx]
        exact hx₂
      · rw [hroot', hroot, put_put h.running.wellFormed]

end Beside

/-! ### Whole deliveries -/

/-- The delivery of a folder whose entries are listed in a given order. -/
def deliverInOrder (artifact output : String) (listed : List (String × Node)) : Effect Unit := do
  makeFolders output
  deliverEntries artifact output (listed.map (·.1))

/-- A folder without links can be delivered: the output folder has no links either or is missing, none
is inside the other, and nowhere is a folder in one of them and a file in the other. -/
structure Deliverable (w : World) (artifact output : String) (a o : Location)
    (src : List (String × Node)) : Prop where
  running : w.Running
  source : w.Ready artifact a
  folder : w.root.at? a = some (.folder src)
  free : LinkFree (.folder src)
  target : w.Ready output o
  coverable : Coverable (.folder src) (w.root.at? o)
  out : ¬a <+: o
  into : ¬o <+: a

/-- A folder was delivered: it is laid over the output folder, and is still what it was. -/
structure Delivered (w : World) (a o : Location) (src : List (String × Node)) (root : Node) : Prop
    extends Covers w.stamp o (.folder src) w.root root where
  keeps : Keeps w.root root
  folder : root.at? a = some (.folder src)

/-- The order in which a folder is listed does not matter for what is looked up in it. -/
theorem lookup_of_perm {listed : List (String × Node)} (h : Sorted src) (hp : listed.Perm src) :
    (∀ e ∈ listed, src.lookup e.1 = some e.2) ∧ (listed.map (·.1)).Nodup ∧
      ∀ name, src.lookup name = listed.lookup name := by
  have hlisted : ∀ e ∈ listed, src.lookup e.1 = some e.2 := fun e he =>
    h.lookup_of_mem (hp.mem_iff.mp he)
  refine ⟨hlisted, ?_, fun name => ?_⟩
  · rw [(hp.map (·.1)).nodup_iff, List.Nodup, List.pairwise_map]
    refine List.Pairwise.imp ?_ h
    exact fun hlt heq => String.lt_irrefl _ (heq ▸ hlt)
  · cases hl : listed.lookup name with
    | some node => exact hlisted _ (mem_of_lookup hl)
    | none =>
        cases hl' : src.lookup name with
        | none => rfl
        | some node =>
            have habsent := List.lookup_eq_none_iff.mp hl _ (hp.mem_iff.mpr (mem_of_lookup hl'))
            simp at habsent

namespace Deliverable

variable {listed : List (String × Node)} {root : Node}

/-- Once the output folder is made, the entries of the folder can be copied into it. -/
theorem makeFolders_beside (h : Deliverable w artifact output a o src) :
    ∃ root there, Does (makeFolders output) w () root ∧ Confined o w.root root ∧
      Keeps w.root root ∧ root.at? a = some (.folder src) ∧
      (w.root.at? o = some (.folder there) ∨ w.root.at? o = none ∧ there = []) ∧
      ∀ w₁ : World, w.Evolves root w₁ → Beside w₁ artifact output a o src there := by
  obtain ⟨root, there, hmake, hconfined, hkeeps, hat, hlower⟩ := makeFolders_aims h.running.steps
    h.running.wellFormed h.target.nonempty h.target.text h.target.written
  have hfolder : root.at? a = some (.folder src) := by
    rw [hconfined.aside a h.into h.out, h.folder]
  refine ⟨root, there, hmake, hconfined, hkeeps, hfolder, hlower, fun w₁ he => ?_⟩
  obtain ⟨-, hsource⟩ := h.source.leads h.running.current hkeeps hfolder
  obtain ⟨-, htarget⟩ := h.target.leads h.running.current hkeeps hat
  rw [← he.root_eq, ← Store.home_congr he.workingDirectory_eq] at hsource htarget
  obtain ⟨top, htop⟩ := h.running.folder
  exact ⟨h.running.evolve he hconfined.after (hkeeps.folder [] top htop), hsource, htarget, h.free,
    h.out, h.into⟩

theorem delivered_inOrder (h : Deliverable w artifact output a o src) (hp : listed.Perm src) :
    ∃ root, Delivered w a o src root ∧ Does (deliverInOrder artifact output listed) w () root := by
  obtain ⟨root₁, there, ⟨w₁, hx, he⟩, hconfined, hkeeps, hfolder, hlower, hbeside⟩ :=
    h.makeFolders_beside
  obtain ⟨hlisted, hnodup, hsame⟩ :=
    lookup_of_perm (h.running.wellFormed.at? h.folder).sorted hp
  have hcoverable : ∀ e ∈ listed, Coverable e.2 (there.lookup e.1) := by
    intro e he'
    rcases hlower with hat | ⟨-, rfl⟩
    · exact (hat ▸ h.coverable).lookup (hlisted e he')
    · exact .of_none e.2
  obtain ⟨merged, root, hmerged, ⟨w₂, hx₂, he₂⟩, hroot, hextends⟩ :=
    (hbeside w₁ he).deliverEntries_overlays hlisted hnodup hcoverable
  rw [he.root_eq] at hroot hextends
  rw [he.stamp_eq] at hmerged
  have hat : root.at? o = some (.folder merged) := by
    have htarget := (hbeside w₁ he).target.at?_eq
    rw [he.root_eq] at htarget
    rw [hroot, at?_put_of_some hconfined.after htarget]
  refine ⟨root, ⟨⟨hconfined.trans (.of_within hextends.toWithin), _, hat, ?_⟩,
    hkeeps.trans hextends.keeps, ?_⟩, w₂, (bind_ok hx).trans hx₂, he.trans he₂⟩
  · exact (hmerged.congr hsame).overlay hlower
  · rw [hextends.toWithin.apart h.into h.out, hfolder]

/-- Whatever the order, all that is listed arrives, with the same outcome. -/
theorem delivered (h : Deliverable w artifact output a o src) :
    ∃ root, Delivered w a o src root ∧
      ∀ listed, listed.Perm src → Does (deliverInOrder artifact output listed) w () root := by
  obtain ⟨root, hroot, -⟩ := h.delivered_inOrder (.refl src)
  refine ⟨root, hroot, fun listed hp => ?_⟩
  obtain ⟨root', hroot', hdoes⟩ := h.delivered_inOrder hp
  rw [hroot.toCovers.unique hroot'.toCovers h.free]
  exact hdoes

/-- A folder is delivered in the order in which it is listed. -/
theorem deliver_eq (h : Deliverable w artifact output a o src) :
    deliver artifact output w = deliverInOrder artifact output src w := by
  obtain ⟨root, there, ⟨w₁, hx, he⟩, -, hkeeps, hfolder, -⟩ := h.makeFolders_beside
  obtain ⟨hwritten, -⟩ := h.source.leads h.running.current hkeeps hfolder
  have hplace := hwritten.place?_folder (absolute_ne_empty h.source.nonempty)
  rw [← he.root_eq, ← he.absolute_eq] at hplace
  rw [deliver, deliverInOrder, bind_ok hx, bind_ok hx, bind_ok (require_found hplace)]

/-- What was delivered can be delivered again. -/
theorem again {w₂ : World} (h : Deliverable w artifact output a o src)
    (hd : Delivered w a o src w₂.root) (hr : w₂.Running)
    (hwd : w₂.workingDirectory = w.workingDirectory) : Deliverable w₂ artifact output a o src := by
  obtain ⟨tree, hat, hover⟩ := hd.overlay
  obtain ⟨merged, hmerged⟩ := hover.folder [] ⟨src, rfl⟩
  obtain rfl : tree = .folder merged := Option.some.inj hmerged
  exact ⟨hr, h.source.keep hwd hd.keeps hd.folder, hd.folder, h.free,
    h.target.keep hwd hd.keeps hat,
    hat ▸ hover.coverable h.free h.coverable (hd.after.at? hat), h.out, h.into⟩

end Deliverable

/-- The delivery of a folder lays it over the output folder. -/
theorem deliver_overlays (h : Deliverable w artifact output a o src) :
    ∃ root, Does (deliver artifact output) w () root ∧ Covers w.stamp o (.folder src) w.root root ∧
      root.at? a = some (.folder src) ∧
      (∀ listed, listed.Perm src → Does (deliverInOrder artifact output listed) w () root) ∧
      ∀ w₂ : World, w₂.Running → w₂.root = root → w₂.workingDirectory = w.workingDirectory →
        ∃ root₂, root₂.contents = root.contents ∧ Does (deliver artifact output) w₂ () root₂ ∧
          ∀ listed, listed.Perm src → Does (deliverInOrder artifact output listed) w₂ () root₂ := by
  obtain ⟨root, hroot, hdoes⟩ := h.delivered
  have hdeliver : Does (deliver artifact output) w () root := by
    rw [Does, h.deliver_eq]
    exact hdoes src (.refl src)
  refine ⟨root, hdeliver, hroot.toCovers, hroot.folder, hdoes, fun w₂ hr heq hwd => ?_⟩
  subst heq
  have hagain := h.again hroot hr hwd
  obtain ⟨root₂, hroot₂, hdoes₂⟩ := hagain.delivered
  refine ⟨root₂, hroot.toCovers.again hroot₂.toCovers h.free, ?_, hdoes₂⟩
  rw [Does, hagain.deliver_eq]
  exact hdoes₂ src (.refl src)

/-- What is delivered from `/W/a`. -/
def shipped : List (String × Node) :=
  [("d", .folder [("x", .file [1] ⟨0, 0⟩)]), ("e", .file [2] ⟨0, 0⟩)]

/-- Some of its names are in `/W/o` too, with other contents. -/
def overlapping : World := .start (.folder [("W", .folder [("a", .folder shipped), ("o", .folder
  [("d", .folder [("y", .file [3] ⟨0, 0⟩)]), ("e", .file [4] ⟨0, 0⟩), ("z", .file [5] ⟨0, 0⟩)]),
  ("q", .empty)])])

theorem deliverable_overlapping :
    Deliverable overlapping "/W/a" "q/../o" ["W", "a"] ["W", "o"] shipped := by
  have hfree : LinkFree (.folder shipped) := by
    refine .folder _ (List.forall_mem_cons.mpr ⟨.folder _ ?_, ?_⟩)
    · simpa using LinkFree.file [1] ⟨0, 0⟩
    · simpa using LinkFree.file [2] ⟨0, 0⟩
  refine ⟨World.start_running (by decide) ⟨_, rfl⟩, .of_unlinked (by decide) (by decide) ?_, rfl,
    hfree, .of_unlinked (by decide) (by decide) ?_, ?_, by decide, by decide⟩
  · rw [show Path.names (absolute overlapping "/W/a") = ["W", "a"] by decide +kernel]
    exact .there rfl
  · rw [show Path.names (absolute overlapping "q/../o") = ["W", "q", "..", "o"] by decide +kernel]
    exact .there rfl
  · intro below hbelow
    cases hbelow
    refine ⟨.folder _ ?_, .folders fun name child child' hl hl' => ?_⟩
    · simp only [List.forall_mem_cons]
      refine ⟨.folder _ ?_, .file [4] _, .file [5] _, nofun⟩
      simpa using LinkFree.file [3] ⟨0, 0⟩
    · have hmem := mem_of_lookup hl
      simp only [shipped, List.mem_cons, Prod.mk.injEq, List.not_mem_nil, or_false] at hmem
      rcases hmem with ⟨rfl, rfl⟩ | ⟨rfl, rfl⟩
      · obtain rfl := Option.some.inj hl'
        refine .folders fun name child child' hl hl' => ?_
        have hname := mem_of_lookup hl
        have hname' := mem_of_lookup hl'
        simp_all
      · obtain rfl := Option.some.inj hl'
        exact .files _ _ _ _

/-- Delivered twice, the folder lies over what was in the output folder. -/
theorem deliver_overlays_overlapping :
    Deliverable overlapping "/W/a" "q/../o" ["W", "a"] ["W", "o"] shipped ∧
      ∃ root, Does (deliver "/W/a" "q/../o") overlapping () root ∧
        Does (deliverInOrder "/W/a" "q/../o" shipped.reverse) overlapping () root ∧
        root.at? ["W", "o", "d", "x"] = some (.file [1] overlapping.stamp) ∧
        root.at? ["W", "o", "d", "y"] = some (.file [3] ⟨0, 0⟩) ∧
        root.at? ["W", "o", "e"] = some (.file [2] overlapping.stamp) ∧
        root.at? ["W", "o", "z"] = some (.file [5] ⟨0, 0⟩) ∧
        ∃ root₂, root₂.contents = root.contents ∧
          Does (deliver "/W/a" "q/../o") (.start root) () root₂ := by
  refine ⟨deliverable_overlapping, ?_⟩
  obtain ⟨root, hdoes, hcovers, -, hlisted, hagain⟩ := deliver_overlays deliverable_overlapping
  obtain ⟨tree, hat, hover⟩ := hcovers.overlay
  have hbelow (tail : Location) : root.at? ("W" :: "o" :: tail) = tree.at? tail :=
    at?_append_of_eq hat
  obtain ⟨top, htop⟩ : IsFolderAt root [] := by
    rw [← List.nil_append ["W", "o"]] at hat
    exact exists_folder_of_at?_append hat
  obtain ⟨root₂, hsame, hdoes₂, -⟩ :=
    hagain (.start root) (World.start_running hcovers.after ⟨top, htop⟩) rfl rfl
  refine ⟨root, hdoes, hlisted _ shipped.reverse_perm, ?_, ?_, ?_, ?_, root₂, hsame, hdoes₂⟩
  · exact (hbelow ["d", "x"]).trans (hover.file _ [1] ⟨0, 0⟩ rfl)
  · exact (hbelow ["d", "y"]).trans (hover.rest _ rfl)
  · exact (hbelow ["e"]).trans (hover.file _ [2] ⟨0, 0⟩ rfl)
  · exact (hbelow ["z"]).trans (hover.rest _ rfl)

/-- A folder cannot be delivered to a place behind a file. Where a path has steps up, what is made for
it can be in the way of what is delivered, or the entries go where the path does not lead. -/
theorem deliver_misses :
    let dist := Node.folder [("app", .file [1] ⟨0, 0⟩)]
    let blocked := World.start (.folder [("W", .folder [("dist", dist), ("f", .file [2] ⟨0, 0⟩)])])
    let missing := World.start (.folder [("W", .folder [("dist", dist)])])
    let linked := World.start (.folder [("W", .folder [("dist", dist),
      ("e", .folder [("out", .empty), ("x", .empty)]), ("l", .link "/W/e/x")])])
    (deliver "/W/dist" "/W/f/out" blocked).1 = .error (.failed (.system .notDirectory)) ∧
    (deliver "/W/dist" "/W/out/app/.." missing).1 = .error (.failed (.system .fileOntoFolder)) ∧
    (deliver "/W/dist" "/W/l/../out" linked).1 = .ok () ∧
      (deliver "/W/dist" "/W/l/../out" linked).2.root.at? ["W", "e", "out", "app"] = none ∧
      (deliver "/W/dist" "/W/l/../out" linked).2.root.at? ["W", "out", "app"] =
        some (.file [1] linked.stamp) := by
  decide +kernel

end Packaging

end ScriptPack

import ScriptPack.Proofs.Cache.Grounds
import ScriptPack.Proofs.Cache.Stopping
import ScriptPack.Proofs.Cache.Atomicity
import ScriptPack.Proofs.FileSystem.Confinement

/-!
Rewriting the document of a folder that has no links among its entries, whatever else is in it and
whatever leads to it. Whether the document can be written does not depend on what is written, and
writing it or failing to does not change that.
-/

namespace ScriptPack

open Effect Node Lookup Files

/-- The path of the root, or one in normal form. -/
def Path.IsResolved (path : String) : Prop := path = "/" ∨ Path.IsNormal path

theorem Node.Keeps.setEntry {root : Node} {loc : Location} {entries : List (String × Node)}
    {name : String} {content : Bytes} {modified : Stamp} (hw : root.WellFormed)
    (hat : root.at? loc = some (.folder entries))
    (hf : ∀ node, entries.lookup name = some node → node.isFile = true) :
    Keeps root (put loc (.folder (setEntry name (.file content modified) entries)) root) := by
  rw [← put_child hw hat]
  have hchild := at?_folder_child hat name
  cases hl : entries.lookup name with
  | none => exact .put_of_none hw (hchild.trans hl)
  | some node =>
      cases node with
      | file content' modified' => exact .put_file hw (hchild.trans hl) _
      | folder below => exact absurd (hf _ hl) nofun
      | link target => exact absurd (hf _ hl) nofun

/-- Nothing beside a folder changes with its entries. -/
theorem Node.Confined.put_entries {root : Node} {loc : Location}
    {entries entries' : List (String × Node)} (hw : root.WellFormed)
    (hat : root.at? loc = some (.folder entries)) (hw' : WellFormed (.folder entries')) :
    Confined loc root (put loc (.folder entries') root) := by
  have hafter := hw.put (fun n hn => hw.isName_of_mem hat hn) hw'
  by_cases hne : loc = []
  · subst hne
    exact ⟨hw, hafter, fun other hp => absurd List.nil_prefix hp,
      fun other hp hne => absurd (List.prefix_nil.mp hp) hne⟩
  · exact .of_within ⟨hne, hw, hafter, _, rfl⟩

namespace Cache

/-- A process works at a resolved path; if that leads to a folder, no entry of it is a link. -/
structure Clean (dir : String) (w : World) : Prop where
  running : w.Running
  resolved : Path.IsResolved dir
  linkless : ∀ name target, (contents dir w).lookup name ≠ some (.link target)

/-- Where the folder of a path is, or where it would be made. -/
def location (dir : String) (w : World) : Location :=
  canonicalFrom w.root linkLimit [] (Path.names dir)

variable {dir name : String} {loc : Location} {w w' w'' : World}
  {entries entries₁ : List (String × Node)} {store : Store} {next : Records} {text : String}

theorem absolute_resolved (hd : Path.IsResolved dir) : absolute w dir = dir := by
  rcases hd with rfl | hd
  · exact absolute_of_isAbsolute rfl
  · exact absolute_normal hd

theorem ne_empty_of_resolved (hd : Path.IsResolved dir) : dir ≠ "" := by
  rcases hd with rfl | hd
  · decide
  · exact hd.ne_empty

theorem leads_home (hd : Path.IsResolved dir) (h : Leads w.root dir loc entries) :
    Leads w.root (Store.home w dir) loc entries := by
  rcases hd with rfl | hd
  · have hhome : Store.home w "/" = "" := rfl
    rw [hhome]
    exact h.congr (by decide) (by decide)
  · have hnames : Path.normalNames true (Path.names dir) = Path.names dir :=
      Path.normalNames_of_steps true fun n hn => hd.isStep hn
    rw [Store.home, hd.isAbsolute, hnames, if_pos rfl, hd.under_names]
    exact h

theorem leads_of_home (hd : Path.IsResolved dir) (h : Leads w.root (Store.home w dir) loc entries) :
    Leads w.root dir loc entries := by
  rcases hd with rfl | hd
  · have hhome : Store.home w "/" = "" := rfl
    rw [hhome] at h
    exact h.congr (by decide) (by decide)
  · have hnames : Path.normalNames true (Path.names dir) = Path.names dir :=
      Path.normalNames_of_steps true fun n hn => hd.isStep hn
    rw [Store.home, hd.isAbsolute, hnames, if_pos rfl, hd.under_names] at h
    exact h

theorem contents_of_leads (hd : Path.IsResolved dir) (h : Leads w.root dir loc entries) :
    contents dir w = entries := by
  rcases hd with rfl | hd
  · obtain ⟨above, hl⟩ := leads_root (isFolderAt_nil h.at?_eq)
    have hslash : Leads w.root "/" [] above := hl.congr (by decide) (by decide)
    obtain ⟨rfl, rfl⟩ := h.unique hslash
    have hwalk := hl.dot.1
    rw [contents, place?_of_walk (by decide) (by decide) hwalk]
  · rw [contents, h.place?_eq hd.ne_empty hd.endsWithSeparator]

theorem contents_of_not_leads (hd : Path.IsResolved dir) (hf : IsFolderAt w.root [])
    (h : ∀ loc entries, ¬Leads w.root dir loc entries) : contents dir w = [] := by
  rcases hd with rfl | hd
  · obtain ⟨above, hl⟩ := leads_root hf
    exact absurd (hl.congr (by decide) (by decide)) (h [] above)
  · rw [contents]
    split
    · rename_i hp
      exact absurd (.of_place? hd.endsWithSeparator hp) (h _ _)
    · rfl

namespace Clean

theorem same (h : Clean dir w) (he : w.Evolves w.root w') : Clean dir w' := by
  refine ⟨h.running.evolve he h.running.wellFormed h.running.folder, h.resolved, ?_⟩
  rw [contents, he.root_eq]
  exact h.linkless

/-- Where a name in the folder leads. -/
theorem child (h : Clean dir w) (hl : Leads w.root dir loc entries) (hn : IsName name)
    (follow : Bool) : place? w.root follow (absolute w (Path.join [dir, name])) =
      .ok (match entries.lookup name with
        | none => .free (loc ++ [name])
        | some there => .found (loc ++ [name]) there) := by
  have hpath := Store.absolute_join (isStep_of_isName hn) w dir ""
  simp only [String.append_empty] at hpath
  rw [hpath]
  have hhome := leads_home h.resolved hl
  cases hlook : entries.lookup name with
  | none => exact hhome.free_child hn hlook follow
  | some there =>
      refine hhome.found_child hlook h.running.wellFormed follow fun _ target heq => ?_
      rw [← contents_of_leads h.resolved hl] at hlook
      exact h.linkless name target (heq ▸ hlook)

/-- Nothing is found in a folder that is not there. -/
theorem child_missing (h : Clean dir w) (hl : ∀ loc entries, ¬Leads w.root dir loc entries)
    (hn : IsName name) (follow : Bool) :
    ∃ error, place? w.root follow (absolute w (Path.join [dir, name])) = .error error := by
  have hpath := Store.absolute_join (isStep_of_isName hn) w dir ""
  simp only [String.append_empty] at hpath
  rw [hpath]
  cases hp : place? w.root follow (Store.home w dir ++ "/" ++ name) with
  | error error => exact ⟨error, rfl⟩
  | ok place =>
      obtain ⟨loc, entries, hleads⟩ := Leads.of_child h.running.folder (isStep_of_isName hn) hp
      exact absurd (leads_of_home h.resolved hleads) (hl loc entries)

theorem exists?_artifact (h : Clean dir w) (hn : IsName name) :
    exists? (artifactPath dir name) w = (.ok ((contents dir w).lookup name).isSome, w) := by
  by_cases hl : ∃ loc entries, Leads w.root dir loc entries
  · obtain ⟨loc, entries, hl⟩ := hl
    have hp := h.child hl hn true
    rw [contents_of_leads h.resolved hl]
    cases hlook : entries.lookup name with
    | none =>
        rw [hlook] at hp
        refine exists?_of_not ?_
        rintro ⟨loc', node, hp'⟩
        cases hp.symm.trans hp'
    | some there =>
        rw [hlook] at hp
        exact exists?_of_found hp
  · have hnone : ∀ loc entries, ¬Leads w.root dir loc entries :=
      fun loc entries hl' => hl ⟨loc, entries, hl'⟩
    obtain ⟨error, hp⟩ := h.child_missing hnone hn true
    rw [contents_of_not_leads h.resolved h.running.folder hnone]
    refine exists?_of_not ?_
    rintro ⟨loc', node, hp'⟩
    cases hp.symm.trans hp'

theorem document?_eq (h : Clean dir w) : Store.document? dir w =
    match (contents dir w).lookup documentName with
    | some (.file content _) => some content
    | _ => none := by
  rw [Store.document?_eq, content?, documentPath]
  by_cases hl : ∃ loc entries, Leads w.root dir loc entries
  · obtain ⟨loc, entries, hl⟩ := hl
    rw [h.child hl isName_documentName true, contents_of_leads h.resolved hl]
    cases entries.lookup documentName with
    | none => rfl
    | some there => cases there <;> rfl
  · have hnone : ∀ loc entries, ¬Leads w.root dir loc entries :=
      fun loc entries hl' => hl ⟨loc, entries, hl'⟩
    obtain ⟨error, hp⟩ := h.child_missing hnone isName_documentName true
    rw [hp, contents_of_not_leads h.resolved h.running.folder hnone]
    rfl

end Clean

/-! ### Writing the document -/

/-- The document cannot be written: its folder cannot be made, or something is in the way there. -/
def Barred (dir : String) (w : World) : Prop :=
  (∃ failure, makeFolders dir w = (.error (.failed failure), w)) ∨
    ∃ loc entries, Leads w.root dir loc entries ∧ ¬Writable w.processId entries

/-- The entries after an attempt to write the document that leaves its draft, if that is possible. -/
def drafted (processId : String) (bytes : Bytes) (stamp : Stamp) (entries : List (String × Node)) :
    List (String × Node) :=
  match entries.lookup (draftName processId) with
  | some (.folder _) => entries
  | _ => setEntry (draftName processId) (.file bytes stamp) entries

section

variable {processId : String} {bytes : Bytes} {stamp : Stamp}

theorem drafted_of_file
    (h : ∀ node, entries.lookup (draftName processId) = some node → node.isFile = true) :
    drafted processId bytes stamp entries =
      setEntry (draftName processId) (.file bytes stamp) entries := by
  rw [drafted]
  split
  · rename_i below hl
    exact absurd (h _ hl) nofun
  · rfl

theorem drafted_of_folder {below : List (String × Node)}
    (h : entries.lookup (draftName processId) = some (.folder below)) :
    drafted processId bytes stamp entries = entries := by
  rw [drafted, h]

theorem setEntry_setEntry (h : Sorted entries) (new other : Node) :
    setEntry name new (setEntry name other entries) = setEntry name new entries :=
  alterEntry_alterEntry h

theorem drafted_drafted (h : Sorted entries)
    (hl : ∀ target, entries.lookup (draftName processId) ≠ some (.link target)) :
    drafted processId bytes stamp (drafted processId bytes stamp entries) =
      drafted processId bytes stamp entries := by
  by_cases hf : ∀ node, entries.lookup (draftName processId) = some node → node.isFile = true
  · rw [drafted_of_file hf, drafted_of_file, setEntry_setEntry h]
    intro node hn
    rw [lookup_setEntry h, if_pos rfl] at hn
    cases hn
    rfl
  · simp only [not_forall] at hf
    obtain ⟨node, hn, hnode⟩ := hf
    cases node with
    | file content modified => exact absurd rfl hnode
    | link target => exact absurd hn (hl target)
    | folder below => rw [drafted_of_folder hn, drafted_of_folder hn]

theorem lookup_drafted (h : Sorted entries) (hn : name ≠ draftName processId) :
    (drafted processId bytes stamp entries).lookup name = entries.lookup name := by
  rw [drafted]
  split
  · rfl
  · rw [lookup_setEntry h, if_neg hn]

theorem lookup_draft_drafted (h : Sorted entries) :
    (drafted processId bytes stamp entries).lookup (draftName processId) =
        entries.lookup (draftName processId) ∨
      ∃ stamp', (drafted processId bytes stamp entries).lookup (draftName processId) =
        some (.file bytes stamp') := by
  rw [drafted]
  split
  · exact .inl rfl
  · right
    rw [lookup_setEntry h, if_pos rfl]
    exact ⟨stamp, rfl⟩

theorem not_writable_drafted (h : Sorted entries) (hw : ¬Writable processId entries)
    (hl : ∀ target, entries.lookup (draftName processId) ≠ some (.link target)) :
    ¬Writable processId (drafted processId bytes stamp entries) := by
  intro hw'
  by_cases hf : ∀ node, entries.lookup (draftName processId) = some node → node.isFile = true
  · refine hw ⟨fun node hn => hw'.document node ?_, hf⟩
    rw [lookup_drafted h (draftName_ne processId).symm, hn]
  · simp only [not_forall] at hf
    obtain ⟨node, hn, hnode⟩ := hf
    cases node with
    | file content modified => exact hnode rfl
    | link target => exact hl target hn
    | folder below =>
        rw [drafted_of_folder hn] at hw'
        cases hw'.draft _ hn

/-- Moving a draft to the document, as a change of the entries of their folder. -/
theorem keeps_written {root : Node} (hw : root.WellFormed) (hl : root.at? loc = some (.folder
      (setEntry (draftName processId) (.file bytes stamp) entries))) (hs : Sorted entries)
    (hf : ∀ node, entries.lookup documentName = some node → node.isFile = true) :
    Node.put (loc ++ [documentName]) (.file bytes stamp)
        (root.remove (loc ++ [draftName processId])) =
      Node.put loc (.folder (written processId bytes stamp entries)) root ∧
    Keeps root (Node.put loc (.folder (written processId bytes stamp entries)) root) := by
  have hne := draftName_ne processId
  have hdraft : (setEntry (draftName processId) (.file bytes stamp) entries).lookup
      (draftName processId) = some (.file bytes stamp) := by
    rw [lookup_setEntry hs, if_pos rfl]
  have herase : root.remove (loc ++ [draftName processId]) =
      Node.put loc (.folder (eraseEntry (draftName processId) entries)) root := by
    rw [remove_child hw hl, eraseEntry_setEntry_self hs]
  have hat : (root.remove (loc ++ [draftName processId])).at? loc =
      some (.folder (eraseEntry (draftName processId) entries)) := by
    rw [herase, at?_put_of_some hw hl]
  have hput : Node.put loc (.folder (written processId bytes stamp entries))
      (root.remove (loc ++ [draftName processId])) =
        Node.put loc (.folder (written processId bytes stamp entries)) root := by
    rw [herase, put_put hw]
  have hremoved : Keeps root (root.remove (loc ++ [draftName processId])) :=
    .remove_file hw ((at?_folder_child hl _).trans hdraft)
  have hset : Keeps (root.remove (loc ++ [draftName processId]))
      (Node.put loc (.folder (written processId bytes stamp entries))
        (root.remove (loc ++ [draftName processId]))) := by
    refine .setEntry (hw.remove _) hat fun node hlook => ?_
    rw [lookup_eraseEntry hs, if_neg hne.symm] at hlook
    exact hf node hlook
  rw [hput] at hset
  refine ⟨?_, hremoved.trans hset⟩
  rw [put_child (hw.remove _) hat, ← Cache.written, hput]

end

namespace Clean

theorem absolute_draft (w : World) (dir : String) (h : IsProcessId w.processId) :
    absolute w (draftPath dir w.processId) = absolute w (Path.join [dir, draftName w.processId]) := by
  have hpath := Store.absolute_join (isStep_of_isName (isName_draftName h)) w dir ""
  simp only [String.append_empty] at hpath
  rw [hpath, Store.absolute_draft]

/-- Changes of the entries that leave folders where they are. -/
theorem put (h : Clean dir w) (hl : Leads w.root dir loc entries)
    (hk : Keeps w.root (Node.put loc (.folder entries₁) w.root)) (hw : WellFormed (.folder entries₁))
    (hn : ∀ name target, entries₁.lookup name ≠ some (.link target))
    (he : w.Evolves (Node.put loc (.folder entries₁) w.root) w') :
    Clean dir w' ∧ Leads w'.root dir loc entries₁ := by
  have hwf := h.running.wellFormed
  have hat : (Node.put loc (.folder entries₁) w.root).at? loc = some (.folder entries₁) :=
    at?_put_of_some hwf hl.at?_eq
  have hl' : Leads w'.root dir loc entries₁ := by
    rw [he.root_eq]
    exact hl.keep hk hat
  refine ⟨⟨h.running.evolve he ?_ (isFolderAt_nil hat), h.resolved, ?_⟩, hl'⟩
  · exact hwf.put (fun n hm => hwf.isName_of_mem hl.at?_eq hm) hw
  · rw [contents_of_leads h.resolved hl']
    exact hn

theorem lookup_ne_link (h : Clean dir w) (hl : Leads w.root dir loc entries) (name target : String) :
    entries.lookup name ≠ some (.link target) := by
  rw [← contents_of_leads h.resolved hl]
  exact h.linkless name target

/-- Writing the draft where there is none yet or a file. -/
theorem writeDraft (h : Clean dir w) (hl : Leads w.root dir loc entries)
    (hf : ∀ node, entries.lookup (draftName w.processId) = some node → node.isFile = true)
    (bytes : Bytes) :
    ∃ w', writeFile (draftPath dir w.processId) bytes w = (.ok (), w') ∧
      w.Evolves (Node.put loc (.folder
        (setEntry (draftName w.processId) (.file bytes w.stamp) entries)) w.root) w' ∧
      Clean dir w' ∧
      Leads w'.root dir loc (setEntry (draftName w.processId) (.file bytes w.stamp) entries) := by
  have hw := h.running.wellFormed
  have hwf := hw.at? hl.at?_eq
  have hn := isName_draftName h.running.process
  have hp := h.child hl hn true
  rw [← absolute_draft w dir h.running.process] at hp
  obtain ⟨w', hx, he⟩ : Does (writeFile (draftPath dir w.processId) bytes) w ()
      (Node.put (loc ++ [draftName w.processId]) (.file bytes w.stamp) w.root) := by
    cases hlook : entries.lookup (draftName w.processId) with
    | none =>
        rw [hlook] at hp
        exact writeFile_does h.running.steps hw hp nofun bytes
    | some node =>
        rw [hlook] at hp
        cases node with
        | file content modified => exact writeFile_does h.running.steps hw hp nofun bytes
        | folder below => exact absurd (hf _ hlook) nofun
        | link target => exact absurd (hf _ hlook) nofun
  rw [put_child hw hl.at?_eq] at he
  refine ⟨w', hx, he, h.put hl (.setEntry hw hl.at?_eq hf) (hwf.setEntry hn (.file _ _)) ?_ he⟩
  intro name target hlook
  rw [lookup_setEntry hwf.sorted] at hlook
  split at hlook
  · cases hlook
  · exact h.lookup_ne_link hl name target hlook

theorem wellFormed_drafted {processId : String} {bytes : Bytes} {stamp : Stamp}
    (h : WellFormed (.folder entries)) (hn : IsName (draftName processId)) :
    WellFormed (.folder (drafted processId bytes stamp entries)) := by
  rw [drafted]
  split
  · exact h
  · exact h.setEntry hn (.file _ _)

/-- A document that cannot be written is left, and so is the draft of it if that can be written. -/
theorem install_barred (h : Clean dir w) (hl : Leads w.root dir loc entries)
    (hb : ¬Writable w.processId entries) (bytes : Bytes) :
    ∃ failure w', Store.install dir w.processId bytes w = (.error (.failed failure), w') ∧
      w.Evolves (Node.put loc (.folder (drafted w.processId bytes w.stamp entries)) w.root) w' ∧
      Clean dir w' ∧ Leads w'.root dir loc (drafted w.processId bytes w.stamp entries) := by
  have hn := isName_draftName h.running.process
  by_cases hf : ∀ node, entries.lookup (draftName w.processId) = some node → node.isFile = true
  · obtain ⟨w₁, hx, he, h₁, hl₁⟩ := h.writeDraft hl hf bytes
    obtain ⟨below, hbelow⟩ : ∃ below, entries.lookup documentName = some (.folder below) := by
      by_contra hnone
      refine hb ⟨fun node hdoc => ?_, hf⟩
      cases node with
      | file content modified => rfl
      | link target => rfl
      | folder below => exact absurd ⟨below, hdoc⟩ hnone
    have hsorted := (h.running.wellFormed.at? hl.at?_eq).sorted
    have hsource := h₁.child hl₁ hn false
    rw [lookup_setEntry hsorted, if_pos rfl, ← he.processId_eq,
      ← absolute_draft w₁ dir h₁.running.process, he.processId_eq] at hsource
    have htarget := h₁.child hl₁ isName_documentName false
    rw [lookup_setEntry hsorted, if_neg (draftName_ne _).symm, hbelow] at htarget
    rw [drafted_of_file hf]
    refine ⟨.system .isDirectory, w₁, (bind_ok hx).trans ?_, he, h₁, hl₁⟩
    exact rename_onto_folder hsource htarget (Store.not_prefix_names (draftName_ne _) loc)
  · simp only [not_forall] at hf
    obtain ⟨node, hlook, hnode⟩ := hf
    cases node with
    | file content modified => exact absurd rfl hnode
    | link target => exact absurd hlook (h.lookup_ne_link hl _ target)
    | folder below =>
        have hp := h.child hl hn true
        rw [hlook, ← absolute_draft w dir h.running.process] at hp
        rw [drafted_of_folder hlook, put_at? h.running.wellFormed hl.at?_eq]
        exact ⟨_, w, bind_error (writeFile_folder hp bytes), .refl w, h, hl⟩

/-- A document that can be written. -/
theorem install_writable (h : Clean dir w) (hl : Leads w.root dir loc entries)
    (hb : Writable w.processId entries) (bytes : Bytes) :
    ∃ w', Store.install dir w.processId bytes w = (.ok (), w') ∧
      w.Evolves (Node.put loc (.folder (written w.processId bytes w.stamp entries)) w.root) w' ∧
      Clean dir w' ∧ Leads w'.root dir loc (written w.processId bytes w.stamp entries) := by
  have hw := h.running.wellFormed
  have hwf := hw.at? hl.at?_eq
  have hne := draftName_ne w.processId
  have hfile (node : Node) (hlook : entries.lookup documentName = some node) :
      node.isFile = true := by
    cases node with
    | file content modified => rfl
    | link target => exact absurd hlook (h.lookup_ne_link hl _ target)
    | folder below => cases hb.document _ hlook
  obtain ⟨w₁, hx, he, h₁, hl₁⟩ := h.writeDraft hl hb.draft bytes
  obtain ⟨hmoved, hkeep⟩ := keeps_written h₁.running.wellFormed hl₁.at?_eq hwf.sorted hfile
  have hsource := h₁.child hl₁ (isName_draftName h.running.process) false
  rw [lookup_setEntry hwf.sorted, if_pos rfl, ← he.processId_eq,
    ← absolute_draft w₁ dir h₁.running.process, he.processId_eq] at hsource
  have htarget := h₁.child hl₁ isName_documentName false
  rw [lookup_setEntry hwf.sorted, if_neg hne.symm] at htarget
  have hpre := Store.not_prefix_names hne loc
  obtain ⟨w₂, hx₂, he₂⟩ : Does (rename (draftPath dir w.processId) (documentPath dir)) w₁ ()
      (Node.put (loc ++ [documentName]) (.file bytes w.stamp)
        (w₁.root.remove (loc ++ [draftName w.processId]))) := by
    cases hlook : entries.lookup documentName with
    | none =>
        rw [hlook] at htarget
        exact rename_does h₁.running.steps hsource htarget hpre trivial
    | some node =>
        rw [hlook] at htarget
        exact rename_does h₁.running.steps hsource htarget hpre ⟨rfl, hb.document node hlook⟩
  rw [hmoved] at he₂
  obtain ⟨h₂, hl₂⟩ := h₁.put hl₁ hkeep (wellFormed_written hwf) (fun name target hlook => by
    rw [written, lookup_setEntry (hwf.eraseEntry _).sorted] at hlook
    split at hlook
    · cases hlook
    · rw [lookup_eraseEntry hwf.sorted] at hlook
      split at hlook
      · cases hlook
      · exact h.lookup_ne_link hl name target hlook) he₂
  refine ⟨w₂, (bind_ok hx).trans hx₂, ?_, h₂, hl₂⟩
  rw [he.root_eq, put_put hw] at he₂
  exact he.trans he₂

/-- Making the folder fails, or it is there, or a new one is made. -/
theorem makeFolders (h : Clean dir w) :
    ((∃ failure, Files.makeFolders dir w = (.error (.failed failure), w)) ∧
      ∀ loc entries, ¬Leads w.root dir loc entries) ∨
    (Files.makeFolders dir w = (.ok (), w) ∧ ∃ loc entries, Leads w.root dir loc entries) ∨
    ∃ w', Files.makeFolders dir w = (.ok (), w') ∧ w.Evolves w'.root w' ∧ Clean dir w' ∧
      (∀ loc entries, ¬Leads w.root dir loc entries) ∧
      Leads w'.root dir (location dir w) [] ∧ Confined (location dir w) w.root w'.root := by
  have hr := h.running
  have habs := absolute_resolved h.resolved (w := w)
  by_cases hl : ∃ loc entries, Leads w.root dir loc entries
  · obtain ⟨loc, entries, hl⟩ := hl
    have hok := makeFolders_of_leads (ne_empty_of_resolved h.resolved) (habs.symm ▸ hl)
    exact .inr (.inl ⟨hok, loc, entries, hl⟩)
  have hnone : ∀ loc entries, ¬Leads w.root dir loc entries :=
    fun loc entries hl' => hl ⟨loc, entries, hl'⟩
  have hup : ".." ∉ Path.names (absolute w dir) := by
    rw [habs]
    rcases h.resolved with rfl | hd
    · decide
    · exact fun hn => (hd.isStep hn).2.2.1 rfl
  have hreach := makeFolders_reaches hr.wellFormed hr.folder hr.current hup
  rw [habs] at hreach
  rcases makeFolders_cases hr.steps hr.wellFormed hr.folder hr.current hup with
    hf | ⟨-, loc, entries, hl'⟩ | ⟨root', loc, ⟨w', hx, he⟩, hm, -⟩
  · exact .inl ⟨hf, hnone⟩
  · exact absurd (habs ▸ hl') (hnone loc entries)
  · have hleads := hm.leads
    rw [habs, ← he.root_eq] at hleads
    obtain ⟨entries, hl', -⟩ := hreach.leads w' hx
    obtain ⟨rfl, rfl⟩ := hl'.unique hleads
    have hconfined := hreach.confined
    rw [Moves, hx] at hconfined
    have hw' : w'.root.WellFormed := hconfined.after
    refine .inr (.inr ⟨w', hx, he.root_eq ▸ he, ⟨?_, h.resolved, ?_⟩, hnone, hleads, hconfined⟩)
    · exact hr.evolve (he.root_eq ▸ he) hw' (isFolderAt_nil hleads.at?_eq)
    · rw [contents_of_leads h.resolved hleads]
      simp

end Clean

/-- What stays of a folder while its document or the draft of it is written. -/
structure Rewrites (dir : String) (w w' : World) : Prop where
  clean : Clean dir w'
  evolves : w.Evolves w'.root w'
  barred : Barred dir w' ↔ Barred dir w
  others : ∀ name, name ≠ documentName → name ≠ draftName w.processId →
    (contents dir w').lookup name = (contents dir w).lookup name
  location : location dir w' = location dir w
  /-- Nothing beside the folder has changed, and above it at most missing folders were made. -/
  confined : Confined (Cache.location dir w) w.root w'.root

theorem location_of_leads (h : Leads w.root dir loc entries) : location dir w = loc :=
  canonicalFrom_folder h.1

theorem barred_of_leads (hd : Path.IsResolved dir) (h : Leads w.root dir loc entries) :
    Barred dir w ↔ ¬Writable w.processId entries := by
  constructor
  · rintro (⟨failure, hf⟩ | ⟨loc', entries', hl, hw⟩)
    · have habs := absolute_resolved hd (w := w)
      cases hf.symm.trans (makeFolders_of_leads (ne_empty_of_resolved hd) (habs.symm ▸ h))
    · obtain ⟨rfl, rfl⟩ := h.unique hl
      exact hw
  · exact fun hw => .inr ⟨loc, entries, h, hw⟩

theorem Barred.same (hb : Barred dir w) (h : Clean dir w) (he : w.Evolves w.root w') :
    Barred dir w' := by
  rcases hb with ⟨failure, hf⟩ | ⟨loc, entries, hl, hw⟩
  · have hagain := ((makeFolders_orderly dir).again h.running.steps he).1
    rw [hf] at hagain
    rcases (h.same he).makeFolders with ⟨hf', -⟩ | ⟨hok, -⟩ | ⟨w₁, hok, -⟩
    · exact .inl hf'
    · rw [hok] at hagain
      cases hagain
    · rw [hok] at hagain
      cases hagain
  · refine .inr ⟨loc, entries, by rwa [he.root_eq], ?_⟩
    rwa [he.processId_eq]

theorem Rewrites.same (h : Clean dir w) (he : w.Evolves w.root w') : Rewrites dir w w' := by
  refine ⟨h.same he, he.root_eq.symm ▸ he, ⟨fun hb => ?_, fun hb => hb.same h he⟩,
    fun name _ _ => ?_, ?_, ?_⟩
  · exact hb.same (h.same he) (he.between (.refl w))
  · rw [contents, contents, he.root_eq]
  · rw [Cache.location, Cache.location, he.root_eq]
  · rw [he.root_eq]
    exact .refl h.running.wellFormed _

theorem Rewrites.trans (h : Rewrites dir w w') (h' : Rewrites dir w' w'') : Rewrites dir w w'' := by
  refine ⟨h'.clean, h.evolves.trans h'.evolves, h'.barred.trans h.barred, fun name hn hn' => ?_,
    h'.location.trans h.location, ?_⟩
  · rw [h'.others name hn (by rwa [h.evolves.processId_eq]), h.others name hn hn']
  · have hconfined := h'.confined
    rw [h.location] at hconfined
    exact h.confined.trans hconfined

theorem lookup_written_draft {processId : String} {bytes : Bytes} {stamp : Stamp}
    (h : WellFormed (.folder entries)) :
    (written processId bytes stamp entries).lookup (draftName processId) = none := by
  rw [written, lookup_setEntry (h.eraseEntry _).sorted, if_neg (draftName_ne processId),
    lookup_eraseEntry h.sorted, if_pos rfl]

theorem writable_written {processId : String} {bytes : Bytes} {stamp : Stamp}
    (h : WellFormed (.folder entries)) :
    Writable processId (written processId bytes stamp entries) := by
  refine ⟨fun node hl => ?_, fun node hl => ?_⟩
  · rw [lookup_written_document h] at hl
    cases hl
    rfl
  · cases (lookup_written_draft h).symm.trans hl

/-- In a folder that is there, a commit of records that can be written is an installation. -/
theorem Clean.commit_into (h : Clean store.root w) (hl : Leads w.root store.root loc entries)
    (ht : Document.serialize next = .ok text) :
    store.commit next w = (do
      Store.install store.root w.processId (Text.Utf8.encode text)
      return { store with records := next } : Effect Store) w := by
  have habs := absolute_resolved h.resolved (w := w)
  have hmake := makeFolders_of_leads (ne_empty_of_resolved h.resolved) (habs.symm ▸ hl)
  rw [Store.commit_eq, bind_ok hmake, bind_ok (get_apply w)]
  simp only [ht]

/-- A commit in a folder that is there and in which nothing is in the way. -/
theorem Clean.commit_writable (h : Clean store.root w) (hl : Leads w.root store.root loc entries)
    (hb : Writable w.processId entries) (ht : Document.serialize next = .ok text) :
    ∃ w', store.commit next w = (.ok { store with records := next }, w') ∧
      Rewrites store.root w w' ∧
      Store.document? store.root w' = some (Text.Utf8.encode text) ∧
      (contents store.root w').lookup (draftName w.processId) = none := by
  have hwf := h.running.wellFormed.at? hl.at?_eq
  obtain ⟨w', hx, he, h', hl'⟩ := h.install_writable hl hb (Text.Utf8.encode text)
  refine ⟨w', ?_, ⟨h', he.root_eq.symm ▸ he, ?_, fun name hn hn' => ?_, ?_, ?_⟩, ?_, ?_⟩
  · rw [h.commit_into hl ht]
    exact bind_ok hx
  · rw [barred_of_leads h.resolved hl, barred_of_leads h.resolved hl', he.processId_eq]
    exact ⟨fun hw => absurd (writable_written hwf) hw, fun hw => absurd hb hw⟩
  · rw [contents_of_leads h.resolved hl, contents_of_leads h.resolved hl', lookup_written hwf hn hn']
  · rw [location_of_leads hl, location_of_leads hl']
  · rw [location_of_leads hl, he.root_eq]
    exact .put_entries h.running.wellFormed hl.at?_eq (wellFormed_written hwf)
  · rw [h'.document?_eq, contents_of_leads h.resolved hl', lookup_written_document hwf]
  · rw [contents_of_leads h.resolved hl', lookup_written_draft hwf]

/-- A commit writes the document and takes the records over, unless the document is barred. -/
theorem Clean.commit_free (h : Clean store.root w) (hb : ¬Barred store.root w)
    (ht : Document.serialize next = .ok text) :
    ∃ w', store.commit next w = (.ok { store with records := next }, w') ∧
      Rewrites store.root w w' ∧
      Store.document? store.root w' = some (Text.Utf8.encode text) ∧
      (contents store.root w').lookup (draftName w.processId) = none := by
  rcases h.makeFolders with ⟨hf, -⟩ | ⟨-, loc, entries, hl⟩ | ⟨w₁, hx, he, h₁, hnone, hl₁, hc⟩
  · exact absurd (.inl hf) hb
  · rw [barred_of_leads h.resolved hl, not_not] at hb
    exact h.commit_writable hl hb ht
  · -- The folder is new and empty.
    have hempty : Writable w₁.processId [] := ⟨nofun, nofun⟩
    obtain ⟨w₂, hx₂, hr, hd⟩ := h₁.commit_writable hl₁ hempty ht
    rw [he.processId_eq] at hd
    refine ⟨w₂, ?_, ⟨hr.clean, he.trans hr.evolves, ?_, fun name hn hn' => ?_, ?_, ?_⟩, hd⟩
    · rw [← hx₂, Store.commit_eq, bind_ok hx]
      have hagain := makeFolders_of_leads (w := w₁) (ne_empty_of_resolved h.resolved)
        ((absolute_resolved h.resolved).symm ▸ hl₁)
      rw [bind_ok hagain]
    · rw [hr.barred, barred_of_leads h.resolved hl₁]
      exact ⟨fun hw => absurd hempty hw, fun hw => absurd hw hb⟩
    · rw [hr.others name hn (by rwa [he.processId_eq]), contents_of_leads h.resolved hl₁,
        contents_of_not_leads h.resolved h.running.folder hnone]
    · exact hr.location.trans (location_of_leads hl₁)
    · have hconfined := hr.confined
      rw [location_of_leads hl₁] at hconfined
      exact hc.trans hconfined

/-- The draft of the document is as before, or it is a file with the text that was to be written. -/
def Drafted (dir : String) (text : String) (w w' : World) : Prop :=
  (contents dir w').lookup (draftName w.processId) = (contents dir w).lookup (draftName w.processId) ∨
    ∃ stamp, (contents dir w').lookup (draftName w.processId) =
      some (.file (Text.Utf8.encode text) stamp)

/-- A commit to a document that is barred fails, leaves the document, and when it is tried again
changes nothing more. -/
theorem Clean.commit_barred (h : Clean store.root w) (hb : Barred store.root w)
    (ht : Document.serialize next = .ok text) :
    ∃ failure w', store.commit next w = (.error (.failed failure), w') ∧
      Rewrites store.root w w' ∧
      (contents store.root w').lookup documentName = (contents store.root w).lookup documentName ∧
      Drafted store.root text w w' ∧
      ∀ w₁, w'.Evolves w'.root w₁ → ∃ failure, Fails (store.commit next) w₁ failure w₁.root := by
  rcases h.makeFolders with ⟨⟨failure, hf⟩, -⟩ | ⟨hx, loc, entries, hl⟩ | ⟨w₁, hx, -, -, hnone, -⟩
  · have hfails : store.commit next w = (.error (.failed failure), w) := by
      rw [Store.commit_eq, bind_error hf]
    refine ⟨failure, w, hfails, .same h (.refl w), rfl, .inl rfl, fun w₁ he => ?_⟩
    have horderly := Store.commit_orderly store next
    obtain ⟨hagain, hroot⟩ := horderly.again h.running.steps he
    rcases horderly.cases (h.same he).running.steps with ⟨_, w₂, hx, -⟩ | ⟨failure', w₂, hx, he₂⟩
    · rw [hx, hfails] at hagain
      cases hagain
    · rw [hx, hfails] at hroot
      have hsame : w₂.root = w₁.root := hroot.trans he.root_eq.symm
      exact ⟨failure', w₂, hx, hsame ▸ he₂⟩
  · rw [barred_of_leads h.resolved hl] at hb
    have hw := h.running.wellFormed
    have hwf := hw.at? hl.at?_eq
    have hn := isName_draftName h.running.process
    obtain ⟨failure, w', hx, he, h', hl'⟩ := h.install_barred hl hb (Text.Utf8.encode text)
    have hb' : ¬Writable w.processId
        (drafted w.processId (Text.Utf8.encode text) w.stamp entries) :=
      not_writable_drafted hwf.sorted hb fun target => h.lookup_ne_link hl _ target
    have hfails {w : World} (h : Clean store.root w) {entries : List (String × Node)}
        (hl : Leads w.root store.root loc entries) {failure : Failure} {w' : World}
        (hx : Store.install store.root w.processId (Text.Utf8.encode text) w =
          (.error (.failed failure), w')) :
        store.commit next w = (.error (.failed failure), w') := by
      rw [h.commit_into hl ht]
      exact bind_error hx
    refine ⟨failure, w', hfails h hl hx,
      ⟨h', he.root_eq.symm ▸ he, ?_, fun name _ hn' => ?_, ?_, ?_⟩, ?_, ?_, fun w₁ he₁ => ?_⟩
    · rw [barred_of_leads h.resolved hl, barred_of_leads h.resolved hl', he.processId_eq]
      exact ⟨fun _ => hb, fun _ => hb'⟩
    · rw [contents_of_leads h.resolved hl, contents_of_leads h.resolved hl',
        lookup_drafted hwf.sorted hn']
    · rw [location_of_leads hl, location_of_leads hl']
    · rw [location_of_leads hl, he.root_eq]
      exact .put_entries hw hl.at?_eq (wellFormed_drafted hwf hn)
    · rw [contents_of_leads h.resolved hl, contents_of_leads h.resolved hl',
        lookup_drafted hwf.sorted (draftName_ne _).symm]
    · rw [Drafted, contents_of_leads h.resolved hl, contents_of_leads h.resolved hl']
      exact lookup_draft_drafted hwf.sorted
    · -- The draft that is there is the one that would be written.
      have h₁ := h'.same he₁
      have hl₁ := hl'
      rw [← he₁.root_eq] at hl₁
      have hb₁ : ¬Writable w₁.processId
          (drafted w.processId (Text.Utf8.encode text) w.stamp entries) := by
        rwa [he₁.processId_eq, he.processId_eq]
      obtain ⟨failure', w₂, hx₂, he₂, -⟩ := h₁.install_barred hl₁ hb₁ (Text.Utf8.encode text)
      refine ⟨failure', w₂, hfails h₁ hl₁ hx₂, ?_⟩
      rwa [he₁.processId_eq, he₁.stamp_eq, he.processId_eq, he.stamp_eq,
        drafted_drafted hwf.sorted fun target => h.lookup_ne_link hl _ target,
        put_at? h₁.running.wellFormed hl₁.at?_eq] at he₂
  · rcases hb with ⟨failure, hf⟩ | ⟨loc, entries, hl, -⟩
    · cases hf.symm.trans hx
    · exact absurd hl (hnone loc entries)

end Cache

end ScriptPack

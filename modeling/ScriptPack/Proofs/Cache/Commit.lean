import ScriptPack.Proofs.Cache.Document
import ScriptPack.Proofs.Cache.Records

/-!
Writing the document of a cache folder. A commit makes the folder, writes the draft and moves it to
the document; it fails at one of these points and leaves the document as it was, or the document
holds the new text. For this the document has to be met on its own terms: `Sound` says that making
the folder discloses no other document, that a document which is a link is not part of the way to
itself, and that the draft is no link.
-/

namespace ScriptPack

open Effect Node Lookup

/-- A world in which a process goes on, with a file system that is in order. -/
structure World.Running (w : World) : Prop where
  steps : w.stepsLeft = none
  wellFormed : w.root.WellFormed
  folder : IsFolderAt w.root []
  current : '\x00' ∉ w.workingDirectory.toList
  process : Cache.IsProcessId w.processId

/-- A world with the given files, in which nothing has happened yet. -/
def World.start (root : Node) : World where
  root
  workingDirectory := "/W"
  clock := 1767225600000
  stamp := ⟨1700000000, 0⟩
  processId := "1"
  environment := ⟨"/W/home", "/W/tmp", none, none, none⟩
  debugSwitch := false
  lines := []
  stepsLeft := none

theorem World.start_running {root : Node} (hw : root.WellFormed) (hf : IsFolderAt root []) :
    (World.start root).Running := by
  have hcurrent : '\x00' ∉ "/W".toList := by decide
  have hprocess : ∀ c ∈ "1".toList, c.isDigit = true := by simp
  exact ⟨rfl, hw, hf, hcurrent, hprocess⟩

namespace World.Running

variable {w w' : World} {root : Node}

theorem evolve (h : w.Running) (he : w.Evolves root w') (hw : root.WellFormed)
    (hf : IsFolderAt root []) : w'.Running := by
  obtain ⟨lines, rfl⟩ := he
  exact ⟨h.steps, hw, hf, h.current, h.process⟩

end World.Running

/-- The bytes of the file to which a path leads. -/
def Lookup.content? (root : Node) (path : String) : Option Bytes :=
  match place? root true path with
  | .ok (.found _ (.file content _)) => some content
  | _ => none

/-- Whether a path names a link. -/
def Lookup.isLink (root : Node) (path : String) : Bool :=
  match place? root false path with
  | .ok (.found _ (.link _)) => true
  | _ => false

theorem Lookup.not_found_link {root : Node} {path : String} (h : isLink root path = false)
    (loc : Location) (target : String) :
    place? root false path ≠ .ok (.found loc (.link target)) := by
  intro hp
  simp [isLink, hp] at h

namespace Store

variable {w w' : World} {root : String} {tree tree' : Node}

/-- The root is written without steps up, or its folder is there. -/
def Anchored (w : World) (root : String) (tree : Node) : Prop :=
  ".." ∉ Path.names (absolute w root) ∨ ∃ loc entries, Leads tree (absolute w root) loc entries

/-- The conditions under which the document is a file of its own. -/
structure Sound (w : World) (root : String) (tree : Node) : Prop where
  anchored : Anchored w root tree
  /-- The way to a document that is a link does not lead through that link. -/
  apart : ∀ loc target,
    place? tree false (absolute w (Cache.documentPath root)) = .ok (.found loc (.link target)) →
    place? (tree.remove loc) false (absolute w (Cache.documentPath root)) = .ok (.free loc) ∧
      Anchored w root (tree.remove loc)
  draft : ∀ loc target,
    place? tree false (absolute w (Cache.draftPath root w.processId)) ≠
      .ok (.found loc (.link target))

theorem Sound.of_not_link (ha : Anchored w root tree)
    (hdoc : isLink tree (absolute w (Cache.documentPath root)) = false)
    (hdraft : isLink tree (absolute w (Cache.draftPath root w.processId)) = false) :
    Sound w root tree :=
  ⟨ha, fun loc target hp => absurd hp (not_found_link hdoc loc target), not_found_link hdraft⟩

theorem absolute_document (w : World) (root : String) :
    absolute w (Cache.documentPath root) = home w root ++ "/" ++ Cache.documentName := by
  have h := absolute_documentPath w root ""
  simpa using h

theorem absolute_draft (w : World) (root id : String) :
    absolute w (Cache.draftPath root id) = home w root ++ "/" ++ Cache.draftName id := by
  have h := absolute_documentPath w root ("." ++ id ++ ".tmp")
  simp only [← String.append_assoc] at h
  rw [Cache.draftPath, h, Cache.draftName]
  simp only [String.append_assoc]

theorem Anchored.keep (h : Anchored w root tree) (hk : Keeps tree tree') :
    Anchored w root tree' := by
  rcases h with h | ⟨loc, entries, h⟩
  · exact .inl h
  · obtain ⟨entries', he⟩ := hk.folder _ _ h.at?_eq
    exact .inr ⟨loc, entries', h.keep hk he⟩

theorem sound_iff_of_evolves {new : Node} (he : w.Evolves new w') :
    Sound w' root tree ↔ Sound w root tree := by
  obtain ⟨lines, rfl⟩ := he
  exact ⟨fun h => ⟨h.anchored, h.apart, h.draft⟩, fun h => ⟨h.anchored, h.apart, h.draft⟩⟩

/-- Making the folder of a root fails or succeeds, and the document stays what it was. -/
theorem makeFolders_sound (hr : w.Running) (hs : Sound w root w.root) :
    (∃ failure, Fails (Files.makeFolders root) w failure w.root) ∨
    ∃ tree, Does (Files.makeFolders root) w () tree ∧ tree.WellFormed ∧ Keeps w.root tree ∧
      Sound w root tree ∧
      content? tree (absolute w (Cache.documentPath root)) =
        content? w.root (absolute w (Cache.documentPath root)) := by
  by_cases hne : root = ""
  · subst hne
    exact .inl ⟨_, fails_of_eq rfl⟩
  have hstay (h : Files.makeFolders root w = (.ok (), w)) :
      ∃ tree, Does (Files.makeFolders root) w () tree ∧ tree.WellFormed ∧ Keeps w.root tree ∧
        Sound w root tree ∧
        content? tree (absolute w (Cache.documentPath root)) =
          content? w.root (absolute w (Cache.documentPath root)) :=
    ⟨w.root, does_of_eq h, hr.wellFormed, .refl _, hs, rfl⟩
  rcases hs.anchored with hup | ⟨loc, entries, hl⟩
  · rcases Files.makeFolders_cases hr.steps hr.wellFormed hr.folder hr.current hup with
      ⟨failure, hf⟩ | ⟨hok, -⟩ | ⟨tree, loc, hd, hm, -⟩
    · exact .inl ⟨failure, fails_of_eq hf⟩
    · exact .inr (hstay hok)
    · refine .inr ⟨tree, hd, hm.wellFormed, hm.keeps, ?_⟩
      have hnul := not_mem_home (by decide) (by decide) hr.current
        (Files.not_mem_of_absolute hm.leads.2)
      have hhome : Leads tree (home w root) loc [] :=
        ⟨walk_undots (undots_home hne hup) hm.leads.1, hnul⟩
      have hdoc (follow) : place? tree follow (absolute w (Cache.documentPath root)) =
          .ok (.free (loc ++ [Cache.documentName])) := by
        rw [absolute_document]
        exact hhome.free_child Cache.isName_documentName rfl follow
      have hdraft : place? tree false (absolute w (Cache.draftPath root w.processId)) =
          .ok (.free (loc ++ [Cache.draftName w.processId])) := by
        rw [absolute_draft]
        exact hhome.free_child (Cache.isName_draftName hr.process) rfl false
      refine ⟨⟨.inr ⟨loc, [], hm.leads⟩, ?_, ?_⟩, ?_⟩
      · intro loc' target hp
        cases (hdoc false).symm.trans hp
      · intro loc' target hp
        cases hdraft.symm.trans hp
      · have hnone : content? w.root (absolute w (Cache.documentPath root)) = none := by
          cases hp : place? w.root true (absolute w (Cache.documentPath root)) with
          | error error => simp only [content?, hp]
          | ok place =>
              rw [absolute_document] at hp
              obtain ⟨loc', entries, hl⟩ := Leads.of_child hr.folder Cache.isStep_documentName hp
              obtain ⟨entries', he⟩ := hm.keeps.folder _ _ hl.at?_eq
              obtain ⟨rfl, -⟩ := (hl.keep hm.keeps he).unique hhome
              cases hm.fresh.symm.trans hl.at?_eq
        rw [hnone]
        simp only [content?, hdoc true]
  · exact .inr (hstay (Files.makeFolders_of_leads hne hl))

section

variable {loc : Location} {entries : List (String × Node)}

/-- The folder of the document is reached without a document that is no folder. -/
theorem Sound.free_document (hs : Sound w root tree) (hw : tree.WellFormed)
    (h : Leads tree (home w root) loc entries)
    (hl : ∀ node, entries.lookup Cache.documentName = some node → node.isFolder = false) :
    place? (tree.remove (loc ++ [Cache.documentName])) false
        (absolute w (Cache.documentPath root)) = .ok (.free (loc ++ [Cache.documentName])) ∧
      Anchored w root (tree.remove (loc ++ [Cache.documentName])) := by
  cases hc : entries.lookup Cache.documentName with
  | none =>
      have hnone : tree.at? (loc ++ [Cache.documentName]) = none := by
        rw [at?_folder_child h.at?_eq, hc]
      rw [Node.remove, alter_id hw hnone.symm, absolute_document]
      exact ⟨h.free_child Cache.isName_documentName hc false, hs.anchored⟩
  | some node =>
      have hat : tree.at? (loc ++ [Cache.documentName]) = some node := by
        rw [at?_folder_child h.at?_eq, hc]
      cases node with
      | folder below => cases hl _ hc
      | link target =>
          refine hs.apart _ target ?_
          rw [absolute_document]
          exact h.found_child hc hw false (by simp)
      | file content modified =>
          have hk := Keeps.remove_file hw hat
          have hloc : (tree.remove (loc ++ [Cache.documentName])).at? loc =
              some (.folder (eraseEntry Cache.documentName entries)) := by
            rw [remove_child hw h.at?_eq, at?_put_of_some hw h.at?_eq]
          have hnone : (eraseEntry Cache.documentName entries).lookup Cache.documentName = none := by
            rw [lookup_eraseEntry (hw.at? h.at?_eq).sorted, if_pos rfl]
          rw [absolute_document]
          exact ⟨(h.keep hk hloc).free_child Cache.isName_documentName hnone false,
            hs.anchored.keep hk⟩

theorem not_prefix_names {name other : String} (hne : name ≠ other) (loc : Location) :
    ¬loc ++ [name] <+: loc ++ [other] := by
  rw [List.prefix_append_right_inj]
  simpa using hne

/-- Moving the written draft to the document. -/
theorem Sound.moved (hs : Sound w root tree) (hw : tree.WellFormed)
    (hid : Cache.IsProcessId w.processId) (h : Leads tree (home w root) loc entries)
    (hl : ∀ node, entries.lookup Cache.documentName = some node → node.isFolder = false)
    {between : Node} (hk : Keeps tree between) (hb : between.WellFormed)
    (hd : between.at? (loc ++ [Cache.draftName w.processId]) = none)
    (bytes : Bytes) (stamp : Stamp) :
    (put (loc ++ [Cache.documentName]) (.file bytes stamp) between).WellFormed ∧
      IsFolderAt (put (loc ++ [Cache.documentName]) (.file bytes stamp) between) [] ∧
      Sound w root (put (loc ++ [Cache.documentName]) (.file bytes stamp) between) ∧
      content? (put (loc ++ [Cache.documentName]) (.file bytes stamp) between)
        (absolute w (Cache.documentPath root)) = some bytes := by
  obtain ⟨hfree, ha⟩ := hs.free_document hw h hl
  obtain ⟨entries', hloc⟩ := hk.folder _ _ h.at?_eq
  have hmem : ∀ n ∈ loc ++ [Cache.documentName], IsName n := by
    intro n hn
    rcases List.mem_append.mp hn with hn | hn
    · exact hw.isName_of_mem h.at?_eq hn
    · rw [List.mem_singleton.mp hn]
      exact Cache.isName_documentName
  have hafter : (put (loc ++ [Cache.documentName]) (.file bytes stamp) between).WellFormed :=
    hb.put hmem (.file bytes stamp)
  have hkeep : Keeps (tree.remove (loc ++ [Cache.documentName]))
      (put (loc ++ [Cache.documentName]) (.file bytes stamp) between) := by
    have hboth : Keeps (tree.remove (loc ++ [Cache.documentName]))
        (between.remove (loc ++ [Cache.documentName])) := hk.remove_both hw hb (by simp)
    have hremove : (put (loc ++ [Cache.documentName]) (.file bytes stamp) between).remove
        (loc ++ [Cache.documentName]) = between.remove (loc ++ [Cache.documentName]) :=
      remove_put hb (by simp)
    rw [← hremove] at hboth
    exact hboth.trans (Keeps.remove hafter (by simp))
  have hself : (put (loc ++ [Cache.documentName]) (.file bytes stamp) between).at?
      (loc ++ [Cache.documentName]) = some (.file bytes stamp) := at?_put_self hb hloc
  have hdoc (follow) : place? (put (loc ++ [Cache.documentName]) (.file bytes stamp) between) follow
      (absolute w (Cache.documentPath root)) =
        .ok (.found (loc ++ [Cache.documentName]) (.file bytes stamp)) := by
    have hf : false = true → follow = true := nofun
    exact place?_carry_found hkeep hf hfree hself nofun
  obtain ⟨above, habove⟩ := exists_folder_of_at?_append hself
  refine ⟨hafter, isFolderAt_nil habove,
    ⟨ha.keep hkeep, fun loc' target hp => ?_, fun loc' target hp => ?_⟩, ?_⟩
  · cases (hdoc false).symm.trans hp
  · have hat := place?_found hp
    rw [absolute_draft] at hp
    obtain ⟨loc₁, entries₁, hl₁⟩ := Leads.of_child (isFolderAt_nil habove)
      (isStep_of_isName (Cache.isName_draftName hid)) hp
    have hdoc' := hdoc false
    rw [absolute_document] at hdoc'
    have hsame := hl₁.child_location hafter Cache.isName_documentName hdoc'
    have hthere := hl₁.child_location hafter (Cache.isName_draftName hid) hp
    rw [Place.location, List.append_left_inj] at hsame
    rw [Place.location, ← hsame] at hthere
    have hother := at?_alter_apart (f := fun _ => some (.file bytes stamp)) hb
      (not_prefix_names (Cache.draftName_ne w.processId).symm loc)
      (not_prefix_names (Cache.draftName_ne w.processId) loc)
    rw [hd] at hother
    rw [hthere] at hat
    cases hother.symm.trans hat
  · simp only [content?, hdoc true]

/-- Writing the draft fails, or it is a new entry or a file in the folder of the document. -/
theorem Sound.draft_cases (hr : w.Running) (hs : Sound w root w.root) (bytes : Bytes) :
    (∃ failure, Files.writeFile (Cache.draftPath root w.processId) bytes w =
      (.error (.failed failure), w)) ∨
    ∃ loc entries, Leads w.root (home w root) loc entries ∧
      ∀ node, entries.lookup (Cache.draftName w.processId) = some node → node.isFile = true := by
  have hid := Cache.isName_draftName hr.process
  cases hp : place? w.root true (absolute w (Cache.draftPath root w.processId)) with
  | error error => exact .inl ⟨_, Files.writeFile_error hp bytes⟩
  | ok place =>
      have hhome := hp
      rw [absolute_draft] at hhome
      obtain ⟨loc, entries, hl⟩ := Leads.of_child hr.folder (isStep_of_isName hid) hhome
      cases hc : entries.lookup (Cache.draftName w.processId) with
      | none => exact .inr ⟨loc, entries, hl, fun node hn => nomatch hc.symm.trans hn⟩
      | some node =>
          cases node with
          | file content modified =>
              refine .inr ⟨loc, entries, hl, fun node hn => ?_⟩
              cases hc.symm.trans hn
              rfl
          | folder below =>
              have hf := hl.found_child hc hr.wellFormed true nofun
              rw [← absolute_draft] at hf
              exact .inl ⟨_, Files.writeFile_folder hf bytes⟩
          | link target =>
              have hf := hl.found_child hc hr.wellFormed false nofun
              rw [← absolute_draft] at hf
              exact absurd hf (hs.draft _ target)

/-- A written draft is a file beside the document. -/
theorem draft_written (hr : w.Running) (hl : Leads w.root (home w root) loc entries)
    (hf : ∀ node, entries.lookup (Cache.draftName w.processId) = some node → node.isFile = true)
    (bytes : Bytes) :
    ∃ tree, Does (Files.writeFile (Cache.draftPath root w.processId) bytes) w () tree ∧
      tree.WellFormed ∧ Keeps w.root tree ∧
      Leads tree (home w root) loc
        (setEntry (Cache.draftName w.processId) (.file bytes w.stamp) entries) := by
  have hid := Cache.isName_draftName hr.process
  have hloc : ∀ n ∈ loc ++ [Cache.draftName w.processId], IsName n := by
    intro n hn
    rcases List.mem_append.mp hn with hn | hn
    · exact hr.wellFormed.isName_of_mem hl.at?_eq hn
    · rw [List.mem_singleton.mp hn]
      exact hid
  have hput : put (loc ++ [Cache.draftName w.processId]) (.file bytes w.stamp) w.root =
      put loc (.folder (setEntry (Cache.draftName w.processId) (.file bytes w.stamp) entries))
        w.root := put_child hr.wellFormed hl.at?_eq
  have hat := at?_folder_child hl.at?_eq (Cache.draftName w.processId)
  have hk : Keeps w.root
      (put (loc ++ [Cache.draftName w.processId]) (.file bytes w.stamp) w.root) := by
    cases hc : entries.lookup (Cache.draftName w.processId) with
    | none => exact Keeps.put_of_none hr.wellFormed (hat.trans hc)
    | some node =>
        cases node with
        | file content modified => exact Keeps.put_file hr.wellFormed (hat.trans hc) _
        | folder below => exact absurd (hf _ hc) nofun
        | link target => exact absurd (hf _ hc) nofun
  refine ⟨_, ?_, hr.wellFormed.put hloc (.file bytes w.stamp), hk, hl.keep hk ?_⟩
  · have hdoes {place : Place} (hp : place? w.root true (home w root ++ "/" ++
        Cache.draftName w.processId) = .ok place)
        (hnf : ∀ loc entries, place ≠ .found loc (.folder entries)) :=
      Files.writeFile_does hr.steps hr.wellFormed ((absolute_draft w root _).symm ▸ hp) hnf bytes
    cases hc : entries.lookup (Cache.draftName w.processId) with
    | none => exact hdoes (hl.free_child hid hc true) nofun
    | some node =>
        cases node with
        | file content modified =>
            exact hdoes (hl.found_child hc hr.wellFormed true nofun) nofun
        | folder below => exact absurd (hf _ hc) nofun
        | link target => exact absurd (hf _ hc) nofun
  · rw [hput, at?_put_of_some hr.wellFormed hl.at?_eq]

end

/-- Writes the draft of a document and moves it into its place. -/
def install (root processId : String) (bytes : Bytes) : Effect Unit := do
  Files.writeFile (Cache.draftPath root processId) bytes
  Files.rename (Cache.draftPath root processId) (Cache.documentPath root)

/-- Installing a document fails and leaves the old one, or the document has the new bytes. -/
theorem install_sound (hr : w.Running) (hs : Sound w root w.root) (bytes : Bytes) :
    (∃ failure tree, Fails (install root w.processId bytes) w failure tree ∧ tree.WellFormed ∧
      IsFolderAt tree [] ∧ Sound w root tree ∧
      content? tree (absolute w (Cache.documentPath root)) =
        content? w.root (absolute w (Cache.documentPath root))) ∨
    ∃ tree, Does (install root w.processId bytes) w () tree ∧ tree.WellFormed ∧
      IsFolderAt tree [] ∧ Sound w root tree ∧
      content? tree (absolute w (Cache.documentPath root)) = some bytes := by
  have hid := Cache.isName_draftName hr.process
  have hne := Cache.draftName_ne w.processId
  rcases hs.draft_cases hr bytes with ⟨failure, hf⟩ | ⟨loc, entries, hl, hfile⟩
  · exact .inl ⟨failure, w.root, (fails_of_eq hf).bind, hr.wellFormed, hr.folder, hs, rfl⟩
  obtain ⟨tree, ⟨w₁, hx, he⟩, hw, hk, hl₁⟩ := draft_written hr hl hfile bytes
  have hsorted := (hr.wellFormed.at? hl.at?_eq).sorted
  have hdraft : (setEntry (Cache.draftName w.processId) (.file bytes w.stamp) entries).lookup
      (Cache.draftName w.processId) = some (.file bytes w.stamp) := by
    rw [lookup_setEntry hsorted, if_pos rfl]
  have hdoc : (setEntry (Cache.draftName w.processId) (.file bytes w.stamp) entries).lookup
      Cache.documentName = entries.lookup Cache.documentName := by
    rw [lookup_setEntry hsorted, if_neg hne.symm]
  have hsource (follow) : place? tree follow (absolute w (Cache.draftPath root w.processId)) =
      .ok (.found (loc ++ [Cache.draftName w.processId]) (.file bytes w.stamp)) := by
    rw [absolute_draft]
    exact hl₁.found_child hdraft hw follow nofun
  have hroot := he.root_eq
  have hsource₁ := hsource false
  rw [← hroot, ← he.absolute_eq] at hsource₁
  have hpre := not_prefix_names hne loc
  by_cases hfold : ∃ below, entries.lookup Cache.documentName = some (.folder below)
  · obtain ⟨below, hb⟩ := hfold
    have hthere (follow) : place? tree follow (absolute w (Cache.documentPath root)) =
        .ok (.found (loc ++ [Cache.documentName]) (.folder below)) := by
      rw [absolute_document]
      exact hl₁.found_child (hdoc.trans hb) hw follow nofun
    have hthere₁ := hthere false
    rw [← hroot, ← he.absolute_eq] at hthere₁
    refine .inl ⟨.system .isDirectory, tree, ⟨w₁, ?_, he⟩, hw, isFolderAt_nil hl₁.at?_eq,
      ⟨hs.anchored.keep hk, fun loc' target hp => ?_, fun loc' target hp => ?_⟩, ?_⟩
    · rw [install, bind_ok hx]
      exact Files.rename_onto_folder hsource₁ hthere₁ hpre
    · cases (hthere false).symm.trans hp
    · cases (hsource false).symm.trans hp
    · have hbefore := hl.found_child hb hr.wellFormed true nofun
      rw [← absolute_document] at hbefore
      simp only [content?, hthere true, hbefore]
  · have hplain : ∀ node, entries.lookup Cache.documentName = some node →
        node.isFolder = false := by
      intro node hn
      cases node with
      | folder below => exact absurd ⟨below, hn⟩ hfold
      | file content modified => rfl
      | link target => rfl
    have hat : tree.at? (loc ++ [Cache.draftName w.processId]) = some (.file bytes w.stamp) :=
      place?_found (hsource false)
    have hb := hw.remove (loc ++ [Cache.draftName w.processId])
    obtain ⟨hafter, hroot₂, hsound, hcontent⟩ := hs.moved hr.wellFormed hr.process hl hplain
      (hk.trans (Keeps.remove_file hw hat)) hb (at?_remove_self hw (by simp)) bytes w.stamp
    obtain ⟨place, hplace, hcan, hloc⟩ : ∃ place,
        place? tree false (absolute w (Cache.documentPath root)) = .ok place ∧
        Files.CanTake (.file bytes w.stamp) place ∧
        place.location = loc ++ [Cache.documentName] := by
      rw [absolute_document]
      cases hc : entries.lookup Cache.documentName with
      | none =>
          exact ⟨_, hl₁.free_child Cache.isName_documentName (hdoc.trans hc) false, trivial, rfl⟩
      | some node =>
          exact ⟨_, hl₁.found_child (hdoc.trans hc) hw false nofun, ⟨rfl, hplain node hc⟩, rfl⟩
    have hplace₁ := hplace
    rw [← hroot, ← he.absolute_eq] at hplace₁
    obtain ⟨w₂, hx₂, he₂⟩ := Files.rename_does (he.stepsLeft_eq.trans hr.steps) hsource₁ hplace₁
      (by rw [hloc]; exact hpre) hcan
    rw [hloc, hroot] at he₂
    refine .inr ⟨_, ⟨w₂, ?_, he.trans he₂⟩, hafter, hroot₂, hsound, hcontent⟩
    rw [install, bind_ok hx]
    exact hx₂

theorem commit_eq (store : Store) (next : Records) :
    store.commit next = (do
      Files.makeFolders store.root
      let world ← get
      match Document.serialize next with
      | .error failure => fail failure
      | .ok text =>
        install store.root world.processId (Text.Utf8.encode text)
        return { store with records := next }) := by
  cases hs : Document.serialize next <;>
    simp only [commit, install, bind_assoc, Store.path, hs]

/-- A commit fails and leaves the document as it was, or writes the records and takes them over. -/
theorem commit_sound (store : Store) (next : Records) (hr : w.Running)
    (hs : Sound w store.root w.root) :
    (∃ failure tree, Fails (store.commit next) w failure tree ∧ tree.WellFormed ∧
      IsFolderAt tree [] ∧ Sound w store.root tree ∧
      content? tree (absolute w (Cache.documentPath store.root)) =
        content? w.root (absolute w (Cache.documentPath store.root))) ∨
    ∃ text tree, Document.serialize next = .ok text ∧
      Does (store.commit next) w { store with records := next } tree ∧ tree.WellFormed ∧
      IsFolderAt tree [] ∧ Sound w store.root tree ∧
      content? tree (absolute w (Cache.documentPath store.root)) =
        some (Text.Utf8.encode text) := by
  rw [commit_eq]
  rcases makeFolders_sound hr hs with ⟨failure, hf⟩ | ⟨tree, ⟨w₁, hx, he⟩, hw, hk, hs₁, hc⟩
  · exact .inl ⟨failure, w.root, hf.bind, hr.wellFormed, hr.folder, hs, rfl⟩
  have hfolder : IsFolderAt tree [] := by
    obtain ⟨entries, he⟩ := hr.folder
    exact hk.folder _ _ he
  have hr₁ := hr.evolve he hw hfolder
  cases ht : Document.serialize next with
  | error failure =>
      refine .inl ⟨failure, tree, ⟨w₁, ?_, he⟩, hw, hfolder, hs₁, hc⟩
      rw [bind_ok hx, bind_ok (get_apply w₁)]
      rfl
  | ok text =>
      have hs₂ : Sound w₁ store.root w₁.root := by
        rw [he.root_eq]
        exact (sound_iff_of_evolves he).mpr hs₁
      rcases install_sound hr₁ hs₂ (Text.Utf8.encode text) with
        ⟨failure, tree', ⟨w₂, hx₂, he₂⟩, hw₂, hroot₂, hsound, hcontent⟩ |
        ⟨tree', ⟨w₂, hx₂, he₂⟩, hw₂, hroot₂, hsound, hcontent⟩
      · refine .inl ⟨failure, tree', ⟨w₂, ?_, he.trans he₂⟩, hw₂, hroot₂, ?_, ?_⟩
        · rw [bind_ok hx, bind_ok (get_apply w₁)]
          exact bind_error hx₂
        · exact (sound_iff_of_evolves he).mp hsound
        · rw [← he.absolute_eq, hcontent, he.root_eq, he.absolute_eq, hc]
      · refine .inr ⟨text, tree', rfl, ⟨w₂, ?_, he.trans he₂⟩, hw₂, hroot₂, ?_, ?_⟩
        · rw [bind_ok hx, bind_ok (get_apply w₁)]
          exact bind_ok hx₂
        · exact (sound_iff_of_evolves he).mp hsound
        · rw [← he.absolute_eq, hcontent]

/-! ### Dropping records -/

variable {store : Store} {signatures : List String}

theorem any_contains_iff (records : Records) (signatures : List String) :
    signatures.any records.contains = true ↔
      ¬∀ signature ∈ signatures, signature ∉ records.view.keys := by
  simp only [List.any_eq_true, Records.contains_iff, Records.view, not_forall, not_not]
  constructor
  · rintro ⟨s, hs, hc⟩
    exact ⟨s, hs, hc⟩
  · rintro ⟨s, hs, hc⟩
    exact ⟨s, hs, hc⟩

theorem deleteMany_idle
    (h : ∀ signature ∈ signatures, signature ∉ store.records.view.keys) :
    store.deleteMany signatures w = (.ok store, w) := by
  rw [deleteMany, if_neg fun hc => (any_contains_iff _ _).mp hc h]
  rfl

theorem deleteMany_commit
    (h : ¬∀ signature ∈ signatures, signature ∉ store.records.view.keys) :
    store.deleteMany signatures = store.commit (store.records.erase signatures) := by
  rw [deleteMany, if_pos ((any_contains_iff _ _).mpr h)]

end Store

end ScriptPack

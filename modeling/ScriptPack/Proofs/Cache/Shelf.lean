import ScriptPack.Proofs.Cache.Commit
import ScriptPack.Proofs.Cache.Naming
import ScriptPack.Proofs.FileSystem.Copying

/-!
The folder of a cache as a list of entries. It is missing until something is kept or cleared; once
it is there, what the cache does to its files is a change of that list.
-/

namespace ScriptPack.Cache

open Effect Node Lookup Files

/-- A process works in a folder that a normal path holds. -/
structure Open (dir : String) (loc : Location) (entries : List (String × Node)) (w : World) :
    Prop where
  running : w.Running
  normal : Path.IsNormal dir
  holds : Holds w.root dir loc entries

/-- A process works where a normal path leads to no folder. -/
structure Closed (dir : String) (w : World) : Prop where
  running : w.Running
  normal : Path.IsNormal dir
  closed : ∀ loc entries, ¬Leads w.root dir loc entries

/-- A process works where a normal path leads nowhere. -/
structure Missing (dir : String) (w : World) : Prop where
  running : w.Running
  normal : Path.IsNormal dir
  absent : ¬Leads? w.root dir

/-- The folder of a cache with its entries. While it is missing it has none. -/
def Shelf (dir : String) (entries : List (String × Node)) (w : World) : Prop :=
  (Missing dir w ∧ entries = []) ∨ ∃ loc, Open dir loc entries w

variable {α β : Type} {dir name other : String} {loc : Location} {w w' : World} {x : Effect α}
  {f : α → Effect β} {a : α} {b : β} {entries entries₁ entries₂ : List (String × Node)}

namespace Open

theorem wellFormed (h : Open dir loc entries w) : WellFormed (.folder entries) :=
  h.running.wellFormed.at? h.holds.at?_eq

theorem put_entries (h : Open dir loc entries w) : put loc (.folder entries) w.root = w.root :=
  put_at? h.running.wellFormed h.holds.at?_eq

theorem put (h : Open dir loc entries w) (hw : WellFormed (.folder entries₁))
    (he : w.Evolves (put loc (.folder entries₁) w.root) w') : Open dir loc entries₁ w' := by
  have hwf := h.running.wellFormed
  have hat := h.holds.at?_eq
  refine ⟨h.running.evolve he ?_ ?_, h.normal, ?_⟩
  · exact hwf.put (fun n hn => hwf.isName_of_mem hat hn) hw
  · exact isFolderAt_nil (at?_put_of_some hwf hat)
  · rw [he.root_eq]
    exact h.holds.put hwf entries₁

theorem same (h : Open dir loc entries w) (he : w.Evolves w.root w') : Open dir loc entries w' :=
  h.put h.wellFormed (by rwa [h.put_entries])

/-- One change of the entries after another. -/
theorem trans (h : Open dir loc entries w) {w'' : World}
    (he : w.Evolves (Node.put loc (.folder entries₁) w.root) w')
    (he' : w'.Evolves (Node.put loc (.folder entries₂) w'.root) w'') :
    w.Evolves (Node.put loc (.folder entries₂) w.root) w'' := by
  rw [he.root_eq, put_put h.running.wellFormed] at he'
  exact he.trans he'

/-- The rest of an operation that has changed the entries. -/
theorem does_after (h : Open dir loc entries w)
    (he : w.Evolves (Node.put loc (.folder entries₁) w.root) w')
    (hx : Does x w' a (Node.put loc (.folder entries₂) w'.root)) :
    ∃ w'', x w' = (.ok a, w'') ∧ w.Evolves (Node.put loc (.folder entries₂) w.root) w'' := by
  obtain ⟨w'', hx, he'⟩ := hx
  exact ⟨w'', hx, h.trans he he'⟩

theorem bind_exists {P : List (String × Node) → Prop} (h : Open dir loc entries w)
    (hx : Does x w a (Node.put loc (.folder entries₁) w.root)) (hw : WellFormed (.folder entries₁))
    (hf : ∀ w', Open dir loc entries₁ w' → w.Evolves w'.root w' →
      ∃ entries₂, Does (f a) w' b (Node.put loc (.folder entries₂) w'.root) ∧ P entries₂) :
    ∃ entries₂, Does (x >>= f) w b (Node.put loc (.folder entries₂) w.root) ∧ P entries₂ := by
  obtain ⟨w', hx, he⟩ := hx
  obtain ⟨entries₂, ⟨w'', hf, he'⟩, hp⟩ := hf w' (h.put hw he) (by rw [he.root_eq]; exact he)
  exact ⟨entries₂, ⟨w'', (bind_ok hx).trans hf, h.trans he he'⟩, hp⟩

theorem bind (h : Open dir loc entries w)
    (hx : Does x w a (Node.put loc (.folder entries₁) w.root)) (hw : WellFormed (.folder entries₁))
    (hf : ∀ w', Open dir loc entries₁ w' → w.Evolves w'.root w' →
      Does (f a) w' b (Node.put loc (.folder entries₂) w'.root)) :
    Does (x >>= f) w b (Node.put loc (.folder entries₂) w.root) := by
  obtain ⟨entries', hd, rfl⟩ := h.bind_exists hx hw fun w' ho he =>
    ⟨entries₂, hf w' ho he, (rfl : entries₂ = entries₂)⟩
  exact hd

/-- An operation that leaves the files alone, and then a change of the entries. -/
theorem bind_same (h : Open dir loc entries w) (hx : Does x w a w.root)
    (hf : ∀ w', Open dir loc entries w' → w.Evolves w'.root w' →
      Does (f a) w' b (Node.put loc (.folder entries₁) w'.root)) :
    Does (x >>= f) w b (Node.put loc (.folder entries₁) w.root) :=
  h.bind (by rwa [h.put_entries]) h.wellFormed hf

theorem does_same (h : Open dir loc entries w) (hx : Does x w a w.root) :
    Does x w a (Node.put loc (.folder entries) w.root) := by
  rwa [h.put_entries]

theorem removePath (h : Open dir loc entries w) (hn : IsName name) :
    Does (removePath (dir ++ "/" ++ name)) w true
      (Node.put loc (.folder (eraseEntry name entries)) w.root) := by
  have hremove := removeAll_child h.running.steps h.running.wellFormed h.normal h.holds hn
  refine hremove.attempt.bind fun w' he => ?_
  rw [← he.root_eq]
  exact does_pure true w'

theorem lookup_of_exists? (h : Open dir loc entries w) (hn : IsName name)
    (hx : exists? (dir ++ "/" ++ name) w = (.ok true, w)) : entries.lookup name ≠ none := by
  intro hl
  cases hx.symm.trans (exists?_child_free h.running.wellFormed h.normal h.holds hn hl)

/-- A name that leads nowhere is free or that of a link. -/
theorem lookup_of_not_exists? (h : Open dir loc entries w) {node : Node}
    (hx : exists? (dir ++ "/" ++ name) w = (.ok false, w)) (hl : entries.lookup name = some node) :
    ∃ target, node = .link target := by
  cases node with
  | link target => exact ⟨target, rfl⟩
  | file content modified =>
      cases hx.symm.trans (exists?_child_found h.running.wellFormed h.normal h.holds hl nofun)
  | folder below =>
      cases hx.symm.trans (exists?_child_found h.running.wellFormed h.normal h.holds hl nofun)

end Open

namespace Closed

theorem same (h : Closed dir w) (he : w.Evolves w.root w') : Closed dir w' :=
  ⟨h.running.evolve he h.running.wellFormed h.running.folder, h.normal,
    by rw [he.root_eq]; exact h.closed⟩

theorem child (h : Closed dir w) (hn : Path.IsStep name) (follow : Bool) :
    ∃ error, place? w.root follow (absolute w (dir ++ "/" ++ name)) = .error error := by
  rw [absolute_child h.normal]
  cases hp : place? w.root follow (dir ++ "/" ++ name) with
  | error error => exact ⟨error, rfl⟩
  | ok place =>
      obtain ⟨loc, entries, hl⟩ := Leads.of_child h.running.folder hn hp
      exact absurd hl (h.closed loc entries)

theorem exists?_child (h : Closed dir w) (hn : Path.IsStep name) :
    exists? (dir ++ "/" ++ name) w = (.ok false, w) := by
  obtain ⟨error, he⟩ := h.child hn true
  refine exists?_of_not ?_
  rintro ⟨loc, node, hp⟩
  cases he.symm.trans hp

theorem removePath (h : Closed dir w) (hn : Path.IsStep name) :
    ∃ gone, Does (removePath (dir ++ "/" ++ name)) w gone w.root := by
  obtain ⟨error, he⟩ := h.child hn false
  rw [Cache.removePath]
  by_cases hne : error = .noEntry
  · refine ⟨true, (does_of_eq (attempt_ok (removeAll_noEntry (hne ▸ he)))).bind fun w' he => ?_⟩
    rw [← he.root_eq]
    exact does_pure true w'
  · refine ⟨false, (does_of_eq (attempt_failed (removeAll_error he hne))).bind fun w' he => ?_⟩
    rw [← he.root_eq]
    refine (warnFailed_does _ _ _ w').bind fun w'' he' => ?_
    rw [← he'.root_eq]
    exact does_pure false w''

theorem list (h : Closed dir w) :
    ∃ failure, list dir w = (.error (.failed failure), w) := by
  rw [Files.list]
  cases hp : place? w.root true (absolute w dir) with
  | error error => exact ⟨_, bind_error (require_error hp)⟩
  | ok place =>
      cases place with
      | free loc => exact ⟨_, bind_error (require_free hp)⟩
      | found loc node =>
          cases node with
          | file content modified => exact ⟨_, bind_ok (require_found hp)⟩
          | link target => exact ⟨_, bind_ok (require_found hp)⟩
          | folder entries =>
              rw [absolute_normal h.normal] at hp
              exact absurd (.of_place? h.normal.endsWithSeparator hp) (h.closed _ _)

/-- The folder cannot be made, or it is there and empty. -/
theorem makeFolders (h : Closed dir w) :
    (∃ failure, makeFolders dir w = (.error (.failed failure), w)) ∨
    ∃ root loc, Does (makeFolders dir) w () root ∧ Adds w.root root loc ∧
      canonicalFrom w.root linkLimit [] (Path.names dir) = loc ∧
      ∀ w', w.Evolves root w' → Open dir loc [] w' := by
  have habs := absolute_normal h.normal (w := w)
  have hup : ".." ∉ Path.names (absolute w dir) := by
    rw [habs]
    exact fun hn => (h.normal.isStep hn).2.2.1 rfl
  rcases makeFolders_cases h.running.steps h.running.wellFormed h.running.folder h.running.current
      hup with hf | ⟨-, loc, entries, hl⟩ | ⟨root, loc, hd, hm, hall⟩
  · exact .inl hf
  · rw [habs] at hl
    exact absurd hl (h.closed loc entries)
  · obtain ⟨hh, hc⟩ := hall h.normal
    refine .inr ⟨root, loc, hd, hm.toAdds, hc, fun w' he => ?_⟩
    exact ⟨h.running.evolve he hm.wellFormed (isFolderAt_nil hm.leads.at?_eq), h.normal,
      by rw [he.root_eq]; exact hh⟩

end Closed

theorem Missing.closed (h : Missing dir w) : Closed dir w :=
  ⟨h.running, h.normal, fun loc _ hl =>
    h.absent ⟨loc, _, hl.place?_eq h.normal.ne_empty h.normal.endsWithSeparator⟩⟩

theorem Missing.same (h : Missing dir w) (he : w.Evolves w.root w') : Missing dir w' :=
  ⟨h.running.evolve he h.running.wellFormed h.running.folder, h.normal,
    by rw [he.root_eq]; exact h.absent⟩

theorem Open.makeFolders (h : Open dir loc entries w) :
    Files.makeFolders dir w = (.ok (), w) := by
  have hl : Leads w.root (absolute w dir) loc entries := by
    rw [absolute_normal h.normal]
    exact h.holds.leads h.running.wellFormed h.normal.endsWithSeparator
  exact makeFolders_of_leads h.normal.ne_empty hl

theorem Shelf.same (h : Shelf dir entries w) (he : w.Evolves w.root w') : Shelf dir entries w' := by
  rcases h with ⟨hm, rfl⟩ | ⟨loc, ho⟩
  · exact .inl ⟨hm.same he, rfl⟩
  · exact .inr ⟨loc, ho.same he⟩

/-! ### The document among the entries -/

/-- The document is a file, and there are no drafts of it. -/
structure Tidy (entries : List (String × Node)) : Prop where
  isFile : ∀ node, entries.lookup documentName = some node → node.isFile = true
  only : ∀ name node, entries.lookup name = some node → isDocumentName name = true →
    name = documentName

theorem Tidy.draft_free (h : Tidy entries) (processId : String) :
    entries.lookup (draftName processId) = none := by
  rw [Option.eq_none_iff_forall_ne_some]
  intro node hl
  exact draftName_ne processId (h.only _ node hl (isDocumentName_draftName processId))

/-- The document of a process can be written: where it belongs is no folder, and where it is drafted
is nothing or a file. -/
structure Writable (processId : String) (entries : List (String × Node)) : Prop where
  document : ∀ node, entries.lookup documentName = some node → node.isFolder = false
  draft : ∀ node, entries.lookup (draftName processId) = some node → node.isFile = true

theorem Writable.congr {processId : String} (h : Writable processId entries)
    (hl : ∀ name, isDocumentName name = true → entries₁.lookup name = entries.lookup name) :
    Writable processId entries₁ :=
  ⟨fun node hn => h.document node ((hl _ (by decide)).symm.trans hn),
    fun node hn => h.draft node ((hl _ (isDocumentName_draftName processId)).symm.trans hn)⟩

theorem Tidy.writable (h : Tidy entries) (processId : String) : Writable processId entries := by
  refine ⟨fun node hl => ?_, fun node hl => nomatch (h.draft_free processId).symm.trans hl⟩
  have hfile := h.isFile node hl
  cases node with
  | file content modified => rfl
  | folder below => cases hfile
  | link target => cases hfile

/-- The entries after the document is written. -/
def written (processId : String) (bytes : Bytes) (stamp : Stamp) (entries : List (String × Node)) :
    List (String × Node) :=
  setEntry documentName (.file bytes stamp) (eraseEntry (draftName processId) entries)

section

variable {bytes : Bytes} {stamp : Stamp} {processId : String}

theorem Tidy.written (h : Tidy entries) (hs : Sorted entries) :
    written processId bytes stamp entries = setEntry documentName (.file bytes stamp) entries := by
  rw [Cache.written, eraseEntry_of_lookup_eq_none hs (h.draft_free processId)]

theorem wellFormed_written (h : WellFormed (.folder entries)) :
    WellFormed (.folder (written processId bytes stamp entries)) :=
  (h.eraseEntry _).setEntry isName_documentName (.file _ _)

theorem lookup_written_document (h : WellFormed (.folder entries)) :
    (written processId bytes stamp entries).lookup documentName = some (.file bytes stamp) := by
  rw [written, lookup_setEntry (h.eraseEntry _).sorted, if_pos rfl]

theorem lookup_written (h : WellFormed (.folder entries)) (hd : name ≠ documentName)
    (hd' : name ≠ draftName processId) :
    (written processId bytes stamp entries).lookup name = entries.lookup name := by
  rw [written, lookup_setEntry (h.eraseEntry _).sorted, if_neg hd, lookup_eraseEntry h.sorted,
    if_neg hd']

end

theorem install_writable (h : Open dir loc entries w) (hw : Writable w.processId entries)
    (bytes : Bytes) :
    Does (Store.install dir w.processId bytes) w ()
      (Node.put loc (.folder (written w.processId bytes w.stamp entries)) w.root) := by
  have hdraft := isName_draftName h.running.process
  have hsorted := h.wellFormed.sorted
  have hwrite := writeFile_child h.running.steps h.running.wellFormed h.normal h.holds hdraft
    hw.draft bytes
  rw [Store.install, documentPath_eq h.normal, draftPath_eq h.normal]
  refine h.bind hwrite (h.wellFormed.setEntry hdraft (.file _ _)) fun w' ho he => ?_
  have hl : (setEntry (draftName w.processId) (.file bytes w.stamp) entries).lookup
      (draftName w.processId) = some (.file bytes w.stamp) := by
    rw [lookup_setEntry hsorted, if_pos rfl]
  have hrename := rename_child ho.running.steps ho.running.wellFormed ho.normal ho.holds
    isName_documentName (draftName_ne w.processId) hl fun there hthere => by
      rw [lookup_setEntry hsorted, if_neg (draftName_ne w.processId).symm] at hthere
      exact ⟨rfl, hw.document there hthere⟩
  rwa [eraseEntry_setEntry_self hsorted] at hrename

/-- A document that cannot be written is left as it is, and at most its draft is there. -/
theorem install_unwritable (h : Open dir loc entries w) (hw : ¬Writable w.processId entries)
    (hd : ∀ target, entries.lookup (draftName w.processId) ≠ some (.link target)) (bytes : Bytes) :
    ∃ failure entries', Fails (Store.install dir w.processId bytes) w failure
        (Node.put loc (.folder entries') w.root) ∧ WellFormed (.folder entries') ∧
      ∀ name, name ≠ draftName w.processId → entries'.lookup name = entries.lookup name := by
  have hdraft := isName_draftName h.running.process
  have hsorted := h.wellFormed.sorted
  rw [Store.install, documentPath_eq h.normal, draftPath_eq h.normal]
  by_cases hfile : ∀ node, entries.lookup (draftName w.processId) = some node → node.isFile = true
  · -- The draft is written, so that the document is a folder.
    obtain ⟨w₁, hx, he⟩ := writeFile_child h.running.steps h.running.wellFormed h.normal h.holds
      hdraft hfile bytes
    have hwf := h.wellFormed.setEntry hdraft (.file bytes w.stamp)
    have ho := h.put hwf he
    have hother {name : String} (hn : name ≠ draftName w.processId) :
        (setEntry (draftName w.processId) (.file bytes w.stamp) entries).lookup name =
          entries.lookup name := by
      rw [lookup_setEntry hsorted, if_neg hn]
    obtain ⟨below, hbelow⟩ : ∃ below, entries.lookup documentName = some (.folder below) := by
      by_contra hnone
      refine hw ⟨fun node hl => ?_, hfile⟩
      cases node with
      | file content modified => rfl
      | link target => rfl
      | folder below => exact absurd ⟨below, hl⟩ hnone
    have hwritten : (setEntry (draftName w.processId) (.file bytes w.stamp) entries).lookup
        (draftName w.processId) = some (.file bytes w.stamp) := by
      rw [lookup_setEntry hsorted, if_pos rfl]
    have hsource := place?_child_found ho.running.wellFormed ho.normal ho.holds hwritten false (by simp)
    have htarget := place?_child_found ho.running.wellFormed ho.normal ho.holds
      ((hother (draftName_ne _).symm).trans hbelow) false (by simp)
    have hfails := rename_onto_folder hsource htarget
      (Store.not_prefix_names (draftName_ne w.processId) loc)
    exact ⟨_, _, ⟨w₁, (bind_ok hx).trans hfails, he⟩, hwf, fun name hn => hother hn⟩
  · -- Where the draft belongs is a folder.
    simp only [not_forall] at hfile
    obtain ⟨node, hl, hnode⟩ := hfile
    cases node with
    | file content modified => exact absurd rfl hnode
    | link target => exact absurd hl (hd target)
    | folder below =>
        have hfails := writeFile_folder
          (place?_child_found h.running.wellFormed h.normal h.holds hl true (by simp)) bytes
        refine ⟨.system .isDirectory, entries, ?_, h.wellFormed, fun _ _ => rfl⟩
        rw [h.put_entries]
        exact fails_of_eq (bind_error hfails)

/-- A commit makes the folder and is then one in that folder. -/
theorem commit_made {store : Store} (hx : Files.makeFolders store.root w = (.ok (), w'))
    (h : Open store.root loc entries w') (next : Records) :
    store.commit next w = store.commit next w' := by
  rw [Store.commit_eq, bind_ok hx, bind_ok h.makeFolders]

theorem commit_writable {store : Store} {next : Records} {text : String}
    (h : Open store.root loc entries w) (hw : Writable w.processId entries)
    (hs : Document.serialize next = .ok text) :
    Does (store.commit next) w { store with records := next } (Node.put loc (.folder
      (written w.processId (Text.Utf8.encode text) w.stamp entries)) w.root) := by
  obtain ⟨w', hx, he⟩ := install_writable h hw (Text.Utf8.encode text)
  refine ⟨w', ?_, he⟩
  rw [Store.commit_eq, bind_ok h.makeFolders, bind_ok (get_apply w), hs]
  exact bind_ok hx

theorem commit_unwritable {store : Store} {next : Records} {text : String}
    (h : Open store.root loc entries w) (hw : ¬Writable w.processId entries)
    (hd : ∀ target, entries.lookup (draftName w.processId) ≠ some (.link target))
    (hs : Document.serialize next = .ok text) :
    ∃ failure entries', Fails (store.commit next) w failure
        (Node.put loc (.folder entries') w.root) ∧ WellFormed (.folder entries') ∧
      ∀ name, name ≠ draftName w.processId → entries'.lookup name = entries.lookup name := by
  obtain ⟨failure, entries', ⟨w', hx, he⟩, hwf, hl⟩ :=
    install_unwritable h hw hd (Text.Utf8.encode text)
  refine ⟨failure, entries', ⟨w', ?_, he⟩, hwf, hl⟩
  rw [Store.commit_eq, bind_ok h.makeFolders, bind_ok (get_apply w), hs]
  exact bind_error hx

theorem commit_open {store : Store} {next : Records} {text : String}
    (h : Open store.root loc entries w) (ht : Tidy entries)
    (hs : Document.serialize next = .ok text) :
    Does (store.commit next) w { store with records := next }
      (Node.put loc (.folder
        (setEntry documentName (.file (Text.Utf8.encode text) w.stamp) entries)) w.root) := by
  have hcommit := commit_writable h (ht.writable w.processId) hs
  rwa [ht.written h.wellFormed.sorted] at hcommit

theorem commit_open_error {store : Store} {next : Records} {failure : Failure}
    (h : Open store.root loc entries w) (hs : Document.serialize next = .error failure) :
    store.commit next w = (.error (.failed failure), w) := by
  rw [Store.commit_eq, bind_ok h.makeFolders, bind_ok (get_apply w), hs]
  rfl

end ScriptPack.Cache

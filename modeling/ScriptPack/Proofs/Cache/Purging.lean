import ScriptPack.Proofs.Cache.Finding
import ScriptPack.Proofs.Cache.Grounds
import ScriptPack.Proofs.Cache.Stopping
import ScriptPack.Proofs.FileSystem.Confinement

/-!
A lookup in any folder. It changes nothing, unless the record that it finds is of an artifact that is
gone; then this record goes, from memory and from the document, if the document can be written.
-/

namespace ScriptPack.Cache

open Effect Node Lookup Files

/-- A path leads to the folder at a location, and nothing changed outside of it but that folders may
have been made on the way to it. -/
structure Alone (dir : String) (loc : Location) (w w' : World) : Prop where
  leads : ∃ entries, Leads w'.root dir loc entries
  confined : Confined loc w.root w'.root

/-- Of a folder everything stays but the document and its draft, and nothing else changes. -/
structure Rests (dir : String) (w w' : World) : Prop where
  others : ∀ name, name ≠ documentName → name ≠ draftName w.processId →
    (contents dir w').lookup name = (contents dir w).lookup name
  outside : w'.root = w.root ∨ ∃ loc, Alone dir loc w w'

variable {cache : Cache} {store : Store} {dir signature : String} {loc : Location}
  {entries entries' : List (String × Node)} {w w' w'' : World}

theorem contents_congr (h : w'.root = w.root) : contents dir w' = contents dir w := by
  rw [contents, contents, h]

theorem Rests.refl (h : w'.root = w.root) : Rests dir w w' :=
  ⟨fun _ _ _ => by rw [contents_congr h], .inl h⟩

/-- The lines that are written before and after do not matter. -/
theorem Rests.around (h : Rests dir w w') {w₀ w₁ : World} (he : w₀.Evolves w₀.root w)
    (he' : w'.Evolves w'.root w₁) : Rests dir w₀ w₁ := by
  obtain ⟨lines, rfl⟩ := he
  obtain ⟨lines', rfl⟩ := he'
  exact ⟨h.others, h.outside.imp_right fun ⟨loc, ha⟩ => ⟨loc, ha.leads, ha.confined⟩⟩

theorem Grounded.same (h : Grounded dir w) (he : w.Evolves w.root w') : Grounded dir w' := by
  have hr := h.running.evolve he h.running.wellFormed h.running.folder
  obtain ⟨lines, rfl⟩ := he
  exact ⟨hr, h.normal, h.own, h.draft⟩

/-- New entries in a folder, of which only the document and its draft are different. -/
theorem Open.rests (h : Open dir loc entries w) (hw : WellFormed (.folder entries'))
    (he : w.Evolves (Node.put loc (.folder entries') w.root) w')
    (hl : ∀ name, name ≠ documentName → name ≠ draftName w.processId →
      entries'.lookup name = entries.lookup name) :
    Rests dir w w' ∧ Alone dir loc w w' := by
  have ho := h.put hw he
  have halone : Alone dir loc w w' := by
    refine ⟨⟨entries', ho.holds.leads ho.running.wellFormed ho.normal.endsWithSeparator⟩, ?_⟩
    rw [he.root_eq]
    exact .of_within (.put h.running.wellFormed h.holds.ne_nil
      (fun _ hn => h.running.wellFormed.isName_of_mem h.holds.at?_eq hn) hw)
  refine ⟨⟨fun name hn hn' => ?_, .inr ⟨loc, halone⟩⟩, halone⟩
  rw [ho.contents_eq, h.contents_eq, hl name hn hn']

/-- The document in a folder is the text of some records. -/
def Lists (dir : String) (records : Records) (w w' : World) : Prop :=
  ∃ text, Document.serialize records = .ok text ∧
    (contents dir w').lookup documentName = some (.file (Text.Utf8.encode text) w.stamp)

/-- How a commit ends in any folder: the document is written, or it stays what it was. -/
def Commits (store : Store) (next : Records) (w w' : World) : Prop :=
  store.commit next w = (.ok { store with records := next }, w') ∧ Lists store.root next w w' ∨
    (∃ failure, store.commit next w = (.error (.failed failure), w')) ∧
      (contents store.root w').lookup documentName = (contents store.root w).lookup documentName

theorem Open.commits (h : Open store.root loc entries w) (next : Records)
    (hd : ∀ target, entries.lookup (draftName w.processId) ≠ some (.link target)) :
    ∃ w', Commits store next w w' ∧ Rests store.root w w' ∧ Alone store.root loc w w' := by
  cases hs : Document.serialize next with
  | error failure =>
      have hleads := h.holds.leads h.running.wellFormed h.normal.endsWithSeparator
      exact ⟨w, .inr ⟨⟨failure, commit_open_error h hs⟩, rfl⟩, .refl rfl, ⟨entries, hleads⟩,
        .refl h.running.wellFormed loc⟩
  | ok text =>
      by_cases hw : Writable w.processId entries
      · obtain ⟨w', hx, he⟩ := commit_writable h hw hs
        have hwf : WellFormed (.folder (written w.processId (Text.Utf8.encode text) w.stamp
          entries)) := wellFormed_written h.wellFormed
        refine ⟨w', .inl ⟨hx, text, hs, ?_⟩, h.rests hwf he fun name hn hn' => ?_⟩
        · rw [(h.put hwf he).contents_eq]
          exact lookup_written_document h.wellFormed
        · exact lookup_written h.wellFormed hn hn'
      · obtain ⟨failure, entries', ⟨w', hx, he⟩, hwf, hl⟩ := commit_unwritable h hw hd hs
        refine ⟨w', .inr ⟨⟨failure, hx⟩, ?_⟩, h.rests hwf he fun name _ hn' => hl name hn'⟩
        rw [(h.put hwf he).contents_eq, h.contents_eq, hl _ (draftName_ne _).symm]

/-- A commit where there is no folder yet: it is made and is empty, or it cannot be made. -/
theorem Closed.commits (h : Closed store.root w) (next : Records) :
    ∃ w', Commits store next w w' ∧ Rests store.root w w' := by
  rcases h.makeFolders with ⟨failure, hx⟩ | ⟨root, loc, ⟨w₁, hx, he⟩, -, hcanon, hopen⟩
  · refine ⟨w, .inr ⟨⟨failure, ?_⟩, rfl⟩, .refl rfl⟩
    rw [Store.commit_eq, bind_error hx]
  · have ho := hopen w₁ he
    have hmade : Confined loc w.root w₁.root := by
      have habs := absolute_normal h.normal (w := w)
      have hup : ".." ∉ Path.names (absolute w store.root) := by
        rw [habs]
        exact fun hn => (h.normal.isStep hn).2.2.1 rfl
      have hreaches := (makeFolders_reaches h.running.wellFormed h.running.folder h.running.current
        hup).confined
      rwa [habs, hcanon, Moves, hx] at hreaches
    obtain ⟨w', hcommits, hrests, hleads, hconfined⟩ := ho.commits next (by simp)
    refine ⟨w', ?_, fun name hn hn' => ?_, .inr ⟨loc, hleads, hmade.trans hconfined⟩⟩
    · rw [Commits, ho.contents_eq, ← commit_made hx ho next] at hcommits
      rw [Commits, h.contents_eq]
      rwa [Lists, he.stamp_eq] at hcommits
    · rw [hrests.others name hn (he.processId_eq ▸ hn'), ho.contents_eq, h.contents_eq]

theorem Grounded.commits (h : Grounded store.root w) (next : Records) :
    ∃ w', Commits store next w w' ∧ Rests store.root w w' := by
  rcases h.cases with ⟨loc, entries, ho, hd⟩ | hclosed
  · obtain ⟨w', hcommits, hrests, -⟩ := ho.commits next hd
    exact ⟨w', hcommits, hrests⟩
  · exact hclosed.commits next

/-- The record of an artifact that is gone has been dropped, or it could not be dropped. -/
structure Purges (cache : Cache) (signature : String) (cache' : Cache) (w w' : World) : Prop where
  stale : cache.Stale signature w
  rests : Rests cache.directory w w'
  records : cache' = cache.withRecords (cache.store.records.erase [signature]) ∧
      Lists cache.directory cache'.store.records w w' ∨
    cache' = cache ∧ (contents cache.directory w').lookup documentName =
      (contents cache.directory w).lookup documentName

/-- The lines that are written before a lookup do not matter. -/
theorem Purges.before {cache' : Cache} {w₁ : World} (h : Purges cache signature cache' w₁ w')
    (hs : w.stepsLeft = none) (he : w.Evolves w.root w₁) : Purges cache signature cache' w w' := by
  obtain ⟨entry, henabled, hg, hexpired, hx⟩ := h.stale
  refine ⟨⟨entry, henabled, hg, by rwa [he.clock_eq] at hexpired, ?_⟩,
    h.rests.around he (.refl w'), ?_⟩
  · obtain ⟨there, hthere⟩ := exists?_same (cache.artifact entry) w
    have hagain := ((exists?_answers (cache.artifact entry)).toOrderly.again hs he).1
    rw [hx, hthere] at hagain
    cases hagain
    exact hthere
  · have hrecords := h.records
    rwa [Lists, he.stamp_eq, contents_congr he.root_eq] at hrecords

/-- Neither do those that are written afterwards. -/
theorem Purges.after {cache' : Cache} {w₁ : World} (h : Purges cache signature cache' w w')
    (he : w'.Evolves w'.root w₁) : Purges cache signature cache' w w₁ := by
  refine ⟨h.stale, h.rests.around (.refl w) he, ?_⟩
  have hrecords := h.records
  rwa [Lists, ← contents_congr he.root_eq] at hrecords

/-- A lookup changes nothing, or it purges the record of an artifact that is gone. -/
theorem Grounded.lookupSignature (h : Grounded cache.directory w)
    (hroot : cache.store.root = cache.directory) (signature : String) :
    ∃ answer cache' w', cache.lookupSignature signature w = (.ok (answer, cache'), w') ∧
      (cache' = cache ∧ w'.root = w.root ∨
        answer = none ∧ Purges cache signature cache' w w') := by
  rcases lookupSignature_run cache signature w with
    ⟨-, answer, ⟨w', hx, he⟩, -⟩ | ⟨entry, w₁, hhas, he, hrun⟩
  · exact ⟨answer, cache, w', hx, .inl ⟨rfl, he.root_eq⟩⟩
  · have h₁ : Grounded cache.store.root w₁ := by
      rw [hroot]
      exact h.same he
    have hdelete : cache.store.delete signature =
        cache.store.commit (cache.store.records.erase [signature]) := by
      refine Store.deleteMany_commit ((Store.any_contains_iff _ _).mp ?_)
      have hmem := Records.mem_of_get? hhas.2.1
      rw [List.any_cons, List.any_nil, Bool.or_false, Records.contains, List.any_eq_true]
      exact ⟨entry, hmem.1, by simpa using hmem.2⟩
    obtain ⟨w₂, hcommits, hrests⟩ := h₁.commits (cache.store.records.erase [signature])
    rw [hroot] at hrests
    rw [Commits, ← hdelete] at hcommits
    rcases hcommits with ⟨hx, hlists⟩ | ⟨⟨failure, hx⟩, hdocument⟩
    · refine ⟨none, cache.withRecords (cache.store.records.erase [signature]), w₂, ?_,
        .inr ⟨rfl, ⟨entry, hhas⟩, hrests.around he (.refl w₂), .inl ⟨rfl, ?_⟩⟩⟩
      · rw [hrun, dropRecord, bind_assoc, bind_ok (attempt_ok hx)]
        rfl
      · rwa [hroot, Lists, he.stamp_eq] at hlists
    · obtain ⟨w₃, hx₃, he₃⟩ := warnFailed_does .cacheWriteFailed "dropping stale entry" failure w₂
      refine ⟨none, cache, w₃, ?_,
        .inr ⟨rfl, ⟨entry, hhas⟩, hrests.around he he₃, .inr ⟨rfl, ?_⟩⟩⟩
      · rw [hrun, dropRecord, bind_assoc, bind_ok (attempt_failed hx)]
        simp only [bind_assoc]
        rw [bind_ok hx₃]
        rfl
      · rw [hroot] at hdocument
        rw [contents_congr he₃.root_eq, hdocument, contents_congr he.root_eq]

end ScriptPack.Cache

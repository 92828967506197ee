import ScriptPack.Proofs.Cache.Grounds
import ScriptPack.Proofs.Cache.Keeping

/-!
Results that are not kept. Whatever keeps a result out, the records are as before, and so is the
folder but for what a copy under the minted id has left: nothing is there any more.
-/

namespace ScriptPack.Cache

open Effect Node Lookup Files

variable {cache cache' : Cache} {loc : Location} {w w' : World} {entries : List (String × Node)}
  {id signature script invocation output : String} {expected : Option String}

/-- The entries when nothing is kept under an id: neither the artifact is there nor a partial copy,
and the others are as before, but for the draft of the document. -/
structure Refused (processId id : String) (entries entries' : List (String × Node)) : Prop where
  artifact : entries'.lookup id = none
  partialCopy : entries'.lookup (partialName id) = none
  others : ∀ name, name ≠ id → name ≠ partialName id → name ≠ draftName processId →
    entries'.lookup name = entries.lookup name

/-- A record that is refused is one that cannot be written, and its artifact goes. -/
theorem record_refused (hroot : cache.store.root = cache.directory) {entry : Entry}
    (hid : IsId entry.cacheId) (h : Open cache.directory loc entries w)
    (hd : ∀ target, entries.lookup (draftName w.processId) ≠ some (.link target))
    (hx : cache.record entry w = (.ok (false, cache'), w')) :
    cache' = cache ∧ ∃ entries', Open cache.directory loc entries' w' ∧
      entries'.lookup entry.cacheId = none ∧
      ∀ name, name ≠ entry.cacheId → name ≠ draftName w.processId →
        entries'.lookup name = entries.lookup name := by
  have hstore : Open cache.store.root loc entries w := hroot.symm ▸ h
  -- When the record cannot be written, what is left of the folder loses the artifact.
  have hremoved {failure : Failure} {left : List (String × Node)} {w₁ : World}
      (ho : Open cache.directory loc left w₁)
      (hf : cache.store.set entry w = (.error (.failed failure), w₁)) :
      cache' = cache ∧ Open cache.directory loc (eraseEntry entry.cacheId left) w' := by
    have hremove := ho.removePath hid.isName
    rw [← artifactPath_eq h.normal (isStep_of_isName hid.isName)] at hremove
    have hrest : Does (do
        let _ ← cache.removeArtifact entry
        warnFailed .cacheWriteFailed "cannot persist cache metadata" failure
        return (false, cache)) w₁ (false, cache)
          (put loc (.folder (eraseEntry entry.cacheId left)) w₁.root) :=
      ho.bind hremove (ho.wellFormed.eraseEntry _) fun w₂ ho₂ _ =>
        ho₂.bind_same (warnFailed_does _ _ _ w₂) fun w₃ ho₃ _ => ho₃.does_same (does_pure _ w₃)
    obtain ⟨w₂, hx₂, he₂⟩ := hrest
    rw [record, bind_ok (attempt_failed hf)] at hx
    cases hx₂.symm.trans hx
    exact ⟨rfl, ho.put (ho.wellFormed.eraseEntry _) he₂⟩
  cases hs : Document.serialize (cache.store.records.set entry) with
  | error failure =>
      obtain ⟨rfl, ho⟩ := hremoved h (commit_open_error hstore hs)
      refine ⟨rfl, _, ho, ?_, fun name hn _ => ?_⟩
      · rw [lookup_eraseEntry h.wellFormed.sorted, if_pos rfl]
      · rw [lookup_eraseEntry h.wellFormed.sorted, if_neg hn]
  | ok text =>
      by_cases hw : Writable w.processId entries
      · obtain ⟨w₁, hset, -⟩ := commit_writable hstore hw hs
        have hset : cache.store.set entry w = _ := hset
        rw [record, bind_ok (attempt_ok hset)] at hx
        obtain ⟨_, w₂, -, hx⟩ := bind_eq_ok hx
        obtain ⟨_, w₃, -, hx⟩ := bind_eq_ok hx
        obtain ⟨_, w₄, -, hx⟩ := bind_eq_ok hx
        obtain ⟨_, w₅, -, hx⟩ := bind_eq_ok hx
        cases hx
      · obtain ⟨failure, left, ⟨w₁, hset, he⟩, hwf, hl⟩ := commit_unwritable hstore hw hd hs
        obtain ⟨rfl, ho⟩ := hremoved (h.put hwf he) hset
        refine ⟨rfl, _, ho, ?_, fun name hn hn' => ?_⟩
        · rw [lookup_eraseEntry hwf.sorted, if_pos rfl]
        · rw [lookup_eraseEntry hwf.sorted, if_neg hn, hl name hn']

/-- A partial copy that is in the way goes before anything else. -/
theorem keepAs_clean (hid : IsId id) (h : Open cache.directory loc entries w)
    (signature script invocation output : String) :
    ∃ w₁, w.Evolves (put loc (.folder (eraseEntry (partialName id) entries)) w.root) w₁ ∧
      cache.keepAs id signature script invocation output w =
        cache.keepAs id signature script invocation output w₁ := by
  have hstep := isStep_of_isName hid.isName
  obtain ⟨w₁, hx, he⟩ := removeAll_child h.running.steps h.running.wellFormed h.normal h.holds
    hid.isName_partial
  have ho := h.put (h.wellFormed.eraseEntry _) he
  have hfree : (eraseEntry (partialName id) entries).lookup (partialName id) = none := by
    rw [lookup_eraseEntry h.wellFormed.sorted, if_pos rfl]
  have hagain : removeAll (cache.directory ++ "/" ++ partialName id) w₁ = (.ok (), w₁) :=
    removeAll_free
      (place?_child_free ho.running.wellFormed ho.normal ho.holds hid.isName_partial hfree false)
  have hcopyIn : cache.copyIn output (artifactPath cache.directory id) w =
      cache.copyIn output (artifactPath cache.directory id) w₁ := by
    rw [copyIn, partialPath_eq h.normal hstep, bind_ok h.makeFolders, bind_ok ho.makeFolders,
      bind_ok hx, bind_ok hagain]
  refine ⟨w₁, he, ?_⟩
  rw [keepAs]
  refine bind_congr_apply ?_
  simp only [attempt, hcopyIn]

theorem keepAs_refused (hroot : cache.store.root = cache.directory) (hid : IsId id)
    (h : Open cache.directory loc entries w) (hv : Vacant entries id)
    (hd : ∀ target, entries.lookup (draftName w.processId) ≠ some (.link target))
    (hx : cache.keepAs id signature script invocation output w = (.ok (false, cache'), w')) :
    cache' = cache ∧ ∃ entries', Open cache.directory loc entries' w' ∧
      Refused w.processId id entries entries' := by
  obtain ⟨w₁, he, hclean⟩ := keepAs_clean hid h signature script invocation output
  rw [hclean] at hx
  have hsorted := h.wellFormed.sorted
  have hfirst (name : String) (hn : name ≠ partialName id) :
      (eraseEntry (partialName id) entries).lookup name = entries.lookup name := by
    rw [lookup_eraseEntry hsorted, if_neg hn]
  have hfree : (eraseEntry (partialName id) entries).lookup (partialName id) = none := by
    rw [lookup_eraseEntry hsorted, if_pos rfl]
  have ho := h.put (h.wellFormed.eraseEntry _) he
  have hv₁ : Vacant (eraseEntry (partialName id) entries) id := fun node hl =>
    hv node ((hfirst id (hid.ne_partial id)).symm.trans hl)
  rcases copyIn_open hid ho hfree hv₁ output with
    ⟨failure, left, hf, hwf, hl⟩ | ⟨origin, node, new, -, hcopy, hin⟩
  · obtain ⟨w₂, hx₂, he₂⟩ := hf.attempt
    have ho₂ := ho.put hwf he₂
    obtain ⟨w₃, hx₃, he₃⟩ := cleanUp_does hid ho₂
      ("cannot copy " ++ output ++ " into the cache") failure
    rw [keepAs, bind_ok hx₂] at hx
    cases hx₃.symm.trans hx
    have hwf₁ := hwf.eraseEntry (partialName id)
    refine ⟨rfl, _, ho₂.put (hwf₁.eraseEntry id) he₃, ?_, ?_, fun name hn hn' _ => ?_⟩
    · rw [lookup_eraseEntry hwf₁.sorted, if_pos rfl]
    · rw [lookup_eraseEntry hwf₁.sorted, if_neg (hid.ne_partial id).symm, lookup_eraseEntry hwf.sorted,
        if_pos rfl]
    · rw [lookup_eraseEntry hwf₁.sorted, if_neg hn, lookup_eraseEntry hwf.sorted, if_neg hn',
        hl name hn', hfirst name hn']
  · obtain ⟨w₂, hx₂, he₂⟩ := hin
    have hsorted₁ := ho.wellFormed.sorted
    have ho₂ := ho.put (ho.wellFormed.setEntry hid.isName hcopy.wellFormed) he₂
    have hprocess : w₂.processId = w.processId := he₂.processId_eq.trans he.processId_eq
    rw [keepAs_copied hx₂] at hx
    have hdraft := ne_draftName hid.not_document w.processId
    have hdraft' := ne_draftName hid.partial_not_document w.processId
    have hd₂ (target : String) : (setEntry id new (eraseEntry (partialName id) entries)).lookup
        (draftName w₂.processId) ≠ some (.link target) := by
      rw [hprocess, lookup_setEntry hsorted₁, if_neg hdraft.symm, hfirst _ hdraft'.symm]
      exact hd target
    obtain ⟨rfl, entries', ho', hgone, hl⟩ := record_refused hroot hid ho₂ hd₂ hx
    rw [hprocess] at hl
    refine ⟨rfl, entries', ho', hgone, ?_, fun name hn hn' hn'' => ?_⟩
    · rw [hl _ (hid.ne_partial id).symm hdraft', lookup_setEntry hsorted₁,
        if_neg (hid.ne_partial id).symm, hfree]
    · rw [hl name hn hn'', lookup_setEntry hsorted₁, if_neg hn, hfirst name hn']

/-- A result that is refused after an id was minted for it leaves nothing under that id. -/
theorem mintAndKeep_refused (h : Grounded cache.directory w)
    (hroot : cache.store.root = cache.directory) (hd : Signature.IsDigest signature)
    (hx : cache.mintAndKeep signature script invocation output w = (.ok (false, cache'), w')) :
    cache' = cache ∧ ∃ id, IsId id ∧ cache.mintId signature w = (.ok id, w) ∧
      Refused w.processId id (contents cache.directory w) (contents cache.directory w') := by
  have hisId (n : Nat) := (isId_baseId hd w.clock).numbered n
  rcases h.cases with ⟨loc, entries, ho, hdraft⟩ | hclosed
  · obtain ⟨n, hmint, hv⟩ := mintId_open ho hd
    rw [mintAndKeep, bind_ok hmint] at hx
    obtain ⟨rfl, entries', ho', hl⟩ := keepAs_refused hroot (hisId n) ho hv hdraft hx
    refine ⟨rfl, _, hisId n, hmint, ?_⟩
    rwa [ho.contents_eq, ho'.contents_eq]
  · have hmint := mintId_closed hclosed signature
    rw [mintAndKeep, bind_ok hmint] at hx
    rw [hclosed.contents_eq]
    rcases hclosed.makeFolders with ⟨failure, hf⟩ | ⟨root, loc, ⟨w₁, hmade, he⟩, -, -, hopen⟩
    · obtain ⟨w₂, hx₂, he₂⟩ := keepAs_closed hclosed (hisId 0) hf signature script invocation output
      cases hx₂.symm.trans hx
      refine ⟨rfl, _, hisId 0, hmint, ?_⟩
      rw [(hclosed.same he₂).contents_eq]
      exact ⟨rfl, rfl, fun _ _ _ _ => rfl⟩
    · have ho := hopen w₁ he
      rw [keepAs_made hmade ho.makeFolders] at hx
      have hvacant : Vacant [] (numberedId (baseId signature w.clock) 0) := fun node hl => by cases hl
      obtain ⟨rfl, entries', ho', hl⟩ :=
        keepAs_refused hroot (hisId 0) ho hvacant (by simp) hx
      rw [he.processId_eq] at hl
      refine ⟨rfl, _, hisId 0, hmint, ?_⟩
      rwa [ho'.contents_eq]

/-- A call that keeps nothing leaves the records as they were. If it ends before anything is copied,
no file changes. Otherwise nothing is left under the minted id, and the rest of the folder, the
document with it, is as it was, but for the draft of the document. -/
theorem keep_refused (h : Grounded cache.directory w) (hroot : cache.store.root = cache.directory)
    (hx : cache.keep script invocation output expected w = (.ok (false, cache'), w')) :
    cache' = cache ∧
      ((∀ signature, ¬cache.Proceeds w script invocation output expected signature) →
        w'.root = w.root) ∧
      ∀ signature, cache.Proceeds w script invocation output expected signature →
        ∃ id, cache.mintId signature w = (.ok id, w) ∧
          Refused w.processId id (contents cache.directory w) (contents cache.directory w') ∧
          (contents cache.directory w').lookup documentName =
            (contents cache.directory w).lookup documentName := by
  rcases cache.keep_proceeds w script invocation output expected with
    ⟨hnone, w₁, hx₁, he⟩ | ⟨signature, hp, hx₁⟩
  · cases hx₁.symm.trans hx
    exact ⟨rfl, fun _ => he.root_eq, fun signature hp => absurd hp (hnone signature)⟩
  · have hd := isDigest_of_signature hp.signature_eq
    obtain ⟨rfl, id, hid, hmint, hl⟩ := mintAndKeep_refused h hroot hd (hx₁.symm.trans hx)
    refine ⟨rfl, fun hnone => absurd hp (hnone signature), fun other hp' => ?_⟩
    cases hp'.signature_eq.symm.trans hp.signature_eq
    exact ⟨id, hmint, hl, hl.others _ (ne_documentName hid.not_document).symm
      (ne_documentName hid.partial_not_document).symm (draftName_ne w.processId).symm⟩

/-- A script, what was built from it, and the folder of a cache. -/
def workplace (entries : List (String × Node)) : World := .start (.folder [("W", .folder
  [("a.py", .file [112] ⟨1700000000, 0⟩), ("c", .folder entries), ("o", .file [1, 2, 3] ⟨0, 0⟩)])])

def opened (dir : String) : Cache := ⟨⟨true, dir, 1, 30⟩, ⟨dir, []⟩⟩

/-- A folder is where the document belongs. -/
def obstructed : List (String × Node) := [(documentName, .folder [])]

theorem keep_refused_obstructed : ∃ w' signature id,
    (opened "/W/c").keep "/W/a.py" "" "/W/o" none (workplace obstructed) =
      (.ok (false, opened "/W/c"), w') ∧
    (opened "/W/c").Proceeds (workplace obstructed) "/W/a.py" "" "/W/o" none signature ∧
    Refused "1" id obstructed (contents "/W/c" w') ∧
    (contents "/W/c" w').lookup documentName = some (.folder []) := by
  have hnames : Path.names "/W/c" = ["W", "c"] := by decide +kernel
  have ho : Open "/W/c" ["W", "c"] obstructed (workplace obstructed) := by
    rw [← hnames]
    exact .of_at? (World.start_running (by decide) ⟨_, rfl⟩)
      ((Path.resolve_isNormal "/" "/W/c").resolve_left (by decide)) (by rw [hnames]; rfl)
  have hdraft : obstructed.lookup (draftName "1") = none := by decide +kernel
  have hanswer : ((opened "/W/c").keep "/W/a.py" "" "/W/o" none (workplace obstructed)).1.toOption.map
      (·.1) = some false := by decide +kernel
  obtain ⟨⟨answer, cache⟩, w', hx, rfl⟩ := ok_of_toOption _ _ _ _ hanswer
  have hthere : Leads? (workplace obstructed).root (absolute (workplace obstructed) "/W/o") := by
    by_contra hno
    have hfound : (exists? "/W/o" (workplace obstructed)).1.toOption = some true := by decide +kernel
    rw [exists?_of_not hno] at hfound
    cases hfound
  obtain ⟨signature, hs⟩ : ∃ signature, Files.signature "/W/a.py" "" (workplace obstructed) =
      (.ok signature, workplace obstructed) := by
    have hsome : (Files.signature "/W/a.py" "" (workplace obstructed)).1.toOption.isSome = true := by
      decide +kernel
    rcases signature_cases "/W/a.py" "" (workplace obstructed) with
      ⟨content, stamp, -, -, hs⟩ | ⟨failure, hs⟩
    · exact ⟨_, hs⟩
    · rw [hs] at hsome
      cases hsome
  have hproceeds : (opened "/W/c").Proceeds (workplace obstructed) "/W/a.py" "" "/W/o" none
      signature := ⟨rfl, hthere, hs, nofun⟩
  have hground : Grounded (opened "/W/c").directory (workplace obstructed) :=
    .of_open ho fun target hl => nomatch hdraft.symm.trans hl
  obtain ⟨rfl, -, hrefused⟩ := keep_refused hground rfl hx
  obtain ⟨id, -, hl, hd⟩ := hrefused signature hproceeds
  have hcontents : contents (opened "/W/c").directory (workplace obstructed) = obstructed :=
    ho.contents_eq
  rw [hcontents] at hl hd
  exact ⟨w', signature, id, hx, hproceeds, hl, hd⟩

/-- A document that is a link to a partial copy goes with it; and a folder that is found through a
link with the name of the partial copy is not found any more. -/
theorem keep_loses_document :
    let partialCopy := "build_785f08fa545ce748_1767225600.partial"
    let linked := workplace [(partialCopy, .file [1] ⟨0, 0⟩), (documentName, .link partialCopy),
      (draftName "1", .folder [])]
    let astray := workplace [(partialCopy, .link "/W/c"), ("kept", .file [1] ⟨0, 0⟩)]
    (((opened "/W/c").keep "/W/a.py" "" "/W/o" none linked).1.toOption.map (·.1) = some false ∧
      (Files.read "/W/c/cache_metadata.json" linked).1.toOption = some [1] ∧
      (Files.read "/W/c/cache_metadata.json"
        ((opened "/W/c").keep "/W/a.py" "" "/W/o" none linked).2).1.toOption = none) ∧
    ((opened ("/W/c/" ++ partialCopy)).keep "/W/a.py" "" ("/W/c/" ++ partialCopy ++ "/kept") none
        astray).1.toOption.map (·.1) = some false ∧
      (Files.read ("/W/c/" ++ partialCopy ++ "/kept") astray).1.toOption = some [1] ∧
      (Files.read ("/W/c/" ++ partialCopy ++ "/kept") ((opened ("/W/c/" ++ partialCopy)).keep
        "/W/a.py" "" ("/W/c/" ++ partialCopy ++ "/kept") none astray).2).1.toOption = none := by
  -- One evaluation for each of the worlds.
  dsimp only
  constructor
  · decide +kernel
  · decide +kernel

end ScriptPack.Cache

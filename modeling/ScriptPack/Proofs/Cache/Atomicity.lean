import ScriptPack.Proofs.Cache.Commit

/-!
The store of a cache as a persistent map. An update either takes place in memory and in the document
or in neither of them, whatever was in the folder before and whatever failed earlier.
-/

namespace ScriptPack

open Effect Node Lookup

namespace OrderedMap

theorem without_eq_self {map : OrderedMap} {signatures : List String}
    (hk : ∀ signature ∈ signatures, signature ∉ map.keys)
    (hv : ∀ key, key ∉ map.keys → map.value key = none) : map.without signatures = map := by
  refine OrderedMap.ext ?_ (funext fun key => ?_)
  · exact List.filter_eq_self.mpr fun key hmem => by
      simpa using fun hs => hk key hs hmem
  · simp only [without]
    split
    · rename_i hs
      exact (hv key (hk key hs)).symm
    · rfl

end OrderedMap

namespace Store

/-- A change of the records of a store. -/
inductive Update
  | set (entry : Entry)
  | delete (signature : String)
  | deleteMany (signatures : List String)
  | clear

namespace Update

def run : Update → Store → Effect Store
  | set entry, store => store.set entry
  | delete signature, store => store.delete signature
  | deleteMany signatures, store => store.deleteMany signatures
  | clear, store => store.clear

/-- The same update of a plain map. -/
def apply : Update → OrderedMap → OrderedMap
  | set entry, map => map.set entry
  | delete signature, map => map.without [signature]
  | deleteMany signatures, map => map.without signatures
  | clear, _ => .empty

/-- There is nothing to delete. -/
def IsIdle : Update → OrderedMap → Prop
  | delete signature, map => signature ∉ map.keys
  | deleteMany signatures, map => ∀ signature ∈ signatures, signature ∉ map.keys
  | _, _ => False

end Update

/-- The bytes of the document of a root, if it can be read. -/
def document? (root : String) (w : World) : Option Bytes :=
  (Files.read (Cache.documentPath root) w).1.toOption

variable {root : String} {w₀ w w' : World} {store store' : Store}

theorem document?_eq (root : String) (w : World) :
    document? root w = content? w.root (absolute w (Cache.documentPath root)) := by
  by_cases hf : ∃ loc content modified,
      place? w.root true (absolute w (Cache.documentPath root)) =
        .ok (.found loc (.file content modified))
  · obtain ⟨loc, content, modified, hf⟩ := hf
    rw [document?, Files.read_file hf, content?, hf]
    rfl
  · have hnot : ∀ loc content modified,
        place? w.root true (absolute w (Cache.documentPath root)) ≠
          .ok (.found loc (.file content modified)) :=
      fun loc content modified hp => hf ⟨loc, content, modified, hp⟩
    obtain ⟨failure, hread⟩ := Files.read_not_file hnot
    rw [document?, hread, content?]
    split
    · rename_i loc content modified hp
      exact absurd hp (hnot loc content modified)
    · rfl

/-- A world in which a store can be updated: its document is a file of its own. -/
structure Ready (root : String) (w : World) : Prop where
  running : w.Running
  sound : Sound w root w.root

theorem Ready.evolve {tree : Node} (h : Ready root w) (he : w.Evolves tree w')
    (hw : tree.WellFormed) (hf : IsFolderAt tree []) (hs : Sound w root tree) : Ready root w' :=
  ⟨h.running.evolve he hw hf, by rw [he.root_eq]; exact (sound_iff_of_evolves he).mpr hs⟩

theorem document?_evolve {tree : Node} (he : w.Evolves tree w') :
    document? root w' = content? tree (absolute w (Cache.documentPath root)) := by
  rw [document?_eq, he.absolute_eq, he.root_eq]

/-- A commit fails and leaves the document as it was, or writes the records and takes them over. -/
theorem commit_cases (next : Records) (h : Ready store.root w) :
    (∃ failure w', store.commit next w = (.error (.failed failure), w') ∧ Ready store.root w' ∧
      document? store.root w' = document? store.root w) ∨
    ∃ text w', store.commit next w = (.ok { store with records := next }, w') ∧
      Ready store.root w' ∧ Document.serialize next = .ok text ∧
      document? store.root w' = some (Text.Utf8.encode text) := by
  rcases commit_sound store next h.running h.sound with
    ⟨failure, tree, ⟨w', hx, he⟩, hw, hf, hs, hc⟩ | ⟨text, tree, ht, ⟨w', hx, he⟩, hw, hf, hs, hc⟩
  · refine .inl ⟨failure, w', hx, h.evolve he hw hf hs, ?_⟩
    rw [document?_evolve he, hc, document?_eq]
  · exact .inr ⟨text, w', hx, h.evolve he hw hf hs, ht, (document?_evolve he).trans hc⟩

theorem readRecords_same (root : String) (w : World) :
    (∃ records, readRecords root w = (.ok records, w)) ∨
      ∃ failure, readRecords root w = (.error (.failed failure), w) := by
  rcases Files.read_same (Cache.documentPath root) w with ⟨bytes, hb⟩ | ⟨failure, hf⟩
  · rw [readRecords, bind_ok hb]
    cases Document.parse (String.ofList (Text.Utf8.decode bytes)) with
    | ok records => exact .inl ⟨records, rfl⟩
    | error failure => exact .inr ⟨failure, rfl⟩
  · exact .inr ⟨failure, by rw [readRecords, bind_error hf]⟩

/-- Opening a store only looks at the files. -/
theorem load_does (root : String) (w : World) :
    ∃ records, Does (load root) w ⟨root, records⟩ w.root := by
  obtain ⟨there, hx⟩ := Files.exists?_same (Cache.documentPath root) w
  cases there with
  | false => exact ⟨[], does_of_eq (by rw [load, bind_ok hx]; rfl)⟩
  | true =>
      rcases readRecords_same root w with ⟨records, hr⟩ | ⟨failure, hf⟩
      · refine ⟨records, does_of_eq ?_⟩
        rw [load, bind_ok hx]
        exact bind_ok (attempt_ok hr)
      · refine ⟨[], ?_⟩
        rw [load, Does, bind_ok hx]
        simp only [Bool.not_true, Bool.false_eq_true, if_false]
        rw [bind_ok (attempt_failed hf)]
        refine (warn_does _ w).bind fun w' he => ?_
        rw [← he.root_eq]
        exact does_pure _ w'

/-- An update that is not idle commits the records after the update. -/
theorem Update.run_eq_commit (u : Update) (h : ¬u.IsIdle store.records.view) :
    ∃ next, u.run store = store.commit next ∧ next.view = u.apply store.records.view := by
  cases u with
  | set entry =>
      exact ⟨store.records.set entry, by rw [run, Store.set], Records.view_set _ _⟩
  | clear => exact ⟨[], by rw [run, Store.clear], rfl⟩
  | delete signature =>
      refine ⟨store.records.erase [signature], ?_, Records.view_erase _ _⟩
      rw [run, Store.delete, deleteMany_commit fun hall => h (hall signature (by simp))]
  | deleteMany signatures =>
      exact ⟨store.records.erase signatures, by rw [run, deleteMany_commit h],
        Records.view_erase _ _⟩

theorem Update.run_idle (u : Update) (h : u.IsIdle store.records.view) (w : World) :
    u.run store w = (.ok store, w) := by
  cases u with
  | set entry => exact h.elim
  | clear => exact h.elim
  | delete signature =>
      refine deleteMany_idle fun s hs => ?_
      rw [List.mem_singleton.mp hs]
      exact h
  | deleteMany signatures => exact deleteMany_idle h

theorem Update.apply_idle (u : Update) (records : Records) (h : u.IsIdle records.view) :
    u.apply records.view = records.view := by
  have hv : ∀ key, key ∉ records.view.keys → records.view.value key = none :=
    fun key hk => Records.get?_eq_none hk
  cases u with
  | set entry => exact h.elim
  | clear => exact h.elim
  | delete signature =>
      refine OrderedMap.without_eq_self (fun s hs => ?_) hv
      rw [List.mem_singleton.mp hs]
      exact h
  | deleteMany signatures => exact OrderedMap.without_eq_self h hv

/-- The states of a store that is opened and then updated; a failed update leaves the store. -/
inductive Reached (root : String) (w₀ : World) : Store → World → Prop
  | opened {store : Store} {w : World} (h : load root w₀ = (.ok store, w)) :
      Reached root w₀ store w
  | updated {store store' : Store} {w w' : World} (u : Update) (h : Reached root w₀ store w)
      (h' : u.run store w = (.ok store', w')) : Reached root w₀ store' w'
  | failed {store : Store} {w w' : World} {stop : Stop} (u : Update)
      (h : Reached root w₀ store w) (h' : u.run store w = (.error stop, w')) :
      Reached root w₀ store w'

/-- What an update does: it fails, or has nothing to do, or takes place in memory and document. -/
theorem Update.run_cases (u : Update) (h : Ready store.root w) :
    (∃ failure w', u.run store w = (.error (.failed failure), w') ∧ Ready store.root w' ∧
      document? store.root w' = document? store.root w) ∨
    (u.IsIdle store.records.view ∧ u.run store w = (.ok store, w)) ∨
    ¬u.IsIdle store.records.view ∧ ∃ next text w',
      u.run store w = (.ok { store with records := next }, w') ∧ Ready store.root w' ∧
      next.view = u.apply store.records.view ∧ Document.serialize next = .ok text ∧
      document? store.root w' = some (Text.Utf8.encode text) := by
  by_cases hidle : u.IsIdle store.records.view
  · exact .inr (.inl ⟨hidle, u.run_idle hidle w⟩)
  · obtain ⟨next, hrun, hview⟩ := u.run_eq_commit hidle
    rw [hrun]
    rcases commit_cases next h with hf | ⟨text, w', hx, hready, ht, hd⟩
    · exact .inl hf
    · exact .inr (.inr ⟨hidle, next, text, w', hx, hready, hview, ht, hd⟩)

/-- In every state that is reached the document is a file of its own. -/
theorem Reached.ready (h₀ : Ready root w₀) (h : Reached root w₀ store w) :
    store.root = root ∧ Ready root w := by
  induction h with
  | opened h =>
      obtain ⟨records, w', hx, he⟩ := load_does root w₀
      cases h.symm.trans hx
      exact ⟨rfl, h₀.evolve he h₀.running.wellFormed h₀.running.folder h₀.sound⟩
  | updated u _ h' ih =>
      obtain ⟨rfl, hready⟩ := ih
      rcases u.run_cases hready with
        ⟨failure, w', hx, -⟩ | ⟨-, hx⟩ | ⟨-, next, text, w', hx, hready', -⟩
      · cases h'.symm.trans hx
      · cases h'.symm.trans hx
        exact ⟨rfl, hready⟩
      · cases h'.symm.trans hx
        exact ⟨rfl, hready'⟩
  | failed u _ h' ih =>
      obtain ⟨rfl, hready⟩ := ih
      rcases u.run_cases hready with
        ⟨failure, w', hx, hready', -⟩ | ⟨-, hx⟩ | ⟨-, next, text, w', hx, -⟩
      · cases h'.symm.trans hx
        exact ⟨rfl, hready'⟩
      · cases h'.symm.trans hx
      · cases h'.symm.trans hx

/-- An update returns with the records of a plain map after it and, unless there is nothing to do,
with a document that lists them; or it fails, and the document is what it was. -/
def Update.Atomic (root : String) (u : Update) (store : Store) (w : World) : Prop :=
  (∃ store' w', u.run store w = (.ok store', w') ∧
    store'.records.view = u.apply store.records.view ∧
    (u.IsIdle store.records.view → store' = store ∧ w' = w) ∧
    (¬u.IsIdle store.records.view →
      ∃ text, Document.serialize store'.records = .ok text ∧
        document? root w' = some (Text.Utf8.encode text))) ∨
  ∃ failure w', u.run store w = (.error (.failed failure), w') ∧
    document? root w' = document? root w

theorem Reached.start {records : Records}
    (h : (load root w₀).1.toOption.map (·.records) = some records) :
    Reached root w₀ ⟨root, records⟩ (load root w₀).2 := by
  obtain ⟨records', w', hx, -⟩ := load_does root w₀
  rw [hx, Except.toOption, Option.map_some, Option.some.injEq] at h
  rw [← h]
  exact .opened (by rw [hx])

def sample (storedAt : Timestamp) : Entry := ⟨"s", "id1", storedAt, "/W/a.py", "", 1⟩

/-- Updates are atomic in every state that is reached, whatever failed on the way there. -/
theorem update_atomic (h₀ : Ready root w₀) (h : Reached root w₀ store w) (u : Update) :
    u.Atomic root store w := by
  obtain ⟨rfl, hready⟩ := h.ready h₀
  rcases u.run_cases hready with
    ⟨failure, w', hx, -, hd⟩ | ⟨hidle, hx⟩ | ⟨hidle, next, text, w', hx, -, hview, ht, hd⟩
  · exact .inr ⟨failure, w', hx, hd⟩
  · exact .inl ⟨store, w, hx, (u.apply_idle _ hidle).symm, fun _ => ⟨rfl, rfl⟩,
      fun hnot => absurd hidle hnot⟩
  · exact .inl ⟨_, w', hx, hview, fun h => absurd h hidle, fun _ => ⟨text, ht, hd⟩⟩

/-- The empty folder `/W/r`. -/
def vacant : World := .start (.folder [("W", .folder [("r", .folder [])])])

theorem update_atomic_vacant :
    Ready "/W/r" vacant ∧ Reached "/W/r" vacant ⟨"/W/r", []⟩ (load "/W/r" vacant).2 ∧
      (Update.set (sample (.at 0))).Atomic "/W/r" ⟨"/W/r", []⟩ (load "/W/r" vacant).2 := by
  have hready : Ready "/W/r" vacant :=
    ⟨World.start_running (by decide) ⟨_, rfl⟩,
      .of_not_link (.inl (by decide +kernel)) (by decide +kernel) (by decide +kernel)⟩
  have hreached : Reached "/W/r" vacant ⟨"/W/r", []⟩ (load "/W/r" vacant).2 :=
    .start (by decide +kernel)
  exact ⟨hready, hreached, update_atomic hready hreached (.set (sample (.at 0)))⟩

/-- Files of which the document of `/W/r` is a link by way of a folder `/W/n` that is not there. -/
def detour : World := .start (.folder [("W", .folder
  [("q", .file [111, 108, 100, 10] ⟨0, 0⟩),
   ("r", .folder [("cache_metadata.json", .link "/W/n/../q")])])])

/-- Files of which the document of `/W/r` is a link back to `/W/r`, and `/W/x` a link by way of it. -/
def knot : World := .start (.folder [("W", .folder
  [("r", .folder [("cache_metadata.json", .link "/W/r")]),
   ("x", .link "/W/r/cache_metadata.json")])])

/-- Neither of the two conditions on the document can be left out: a failed update can disclose an
old document, and a written document may not be found again. -/
theorem update_not_atomic :
    (detour.Running ∧
      isLink detour.root (absolute detour (Cache.draftPath "/W/n/../r" detour.processId)) = false ∧
      Reached "/W/n/../r" detour ⟨"/W/n/../r", []⟩ (load "/W/n/../r" detour).2 ∧
      ¬(Update.set (sample .invalid)).Atomic "/W/n/../r" ⟨"/W/n/../r", []⟩
        (load "/W/n/../r" detour).2) ∧
    knot.Running ∧
      isLink knot.root (absolute knot (Cache.draftPath "/W/x" knot.processId)) = false ∧
      Reached "/W/x" knot ⟨"/W/x", []⟩ (load "/W/x" knot).2 ∧
      ¬(Update.set (sample (.at 0))).Atomic "/W/x" ⟨"/W/x", []⟩ (load "/W/x" knot).2 := by
  refine ⟨⟨World.start_running (by decide) ⟨_, rfl⟩, by decide +kernel, .start (by decide +kernel),
    ?_⟩, World.start_running (by decide) ⟨_, rfl⟩, by decide +kernel, .start (by decide +kernel), ?_⟩
  · have hbefore : document? "/W/n/../r" (load "/W/n/../r" detour).2 = none := by decide +kernel
    have hafter : document? "/W/n/../r" ((Update.set (sample .invalid)).run ⟨"/W/n/../r", []⟩
        (load "/W/n/../r" detour).2).2 = some [111, 108, 100, 10] := by decide +kernel
    have hfails : ((Update.set (sample .invalid)).run ⟨"/W/n/../r", []⟩
        (load "/W/n/../r" detour).2).1.toOption.isNone = true := by decide +kernel
    rintro (⟨store', w', hx, -⟩ | ⟨failure, w', hx, hd⟩)
    · rw [hx] at hfails
      cases hfails
    · rw [hx] at hafter
      cases hafter.symm.trans (hd.trans hbefore)
  · have hafter : document? "/W/x" ((Update.set (sample (.at 0))).run ⟨"/W/x", []⟩
        (load "/W/x" knot).2).2 = none := by decide +kernel
    have hreturns : ((Update.set (sample (.at 0))).run ⟨"/W/x", []⟩
        (load "/W/x" knot).2).1.toOption.isSome = true := by decide +kernel
    rintro (⟨store', w', hx, -, -, hd⟩ | ⟨failure, w', hx, -⟩)
    · obtain ⟨text, -, hd⟩ := hd id
      rw [hx] at hafter
      cases hafter.symm.trans hd
    · rw [hx] at hreturns
      cases hreturns

end Store

end ScriptPack

import ScriptPack.FileSystem.Copy
import ScriptPack.FileSystem.Size
import ScriptPack.Proofs.FileSystem.Tree
import ScriptPack.Proofs.Interruption

/-!
Operations on files are orderly: a process that may be stopped makes the same steps as one that goes
on, as far as it comes.
-/

namespace ScriptPack.Files

open Effect

theorem require_orderly (follow : Bool) (path : String) : Orderly (require follow path) := by
  refine .bind (.lookup follow path) fun place => ?_
  cases place with
  | found location node => exact .pure _
  | free location => exact .failSystem _

theorem exists?_answers (path : String) : Answers (exists? path) := by
  refine .bind (.attempt (require_orderly true path)) fun result => ?_
  cases result <;> exact .pure _

theorem isFolder_answers (path : String) : Answers (isFolder path) := by
  refine .bind (.attempt (require_orderly true path)) fun result => ?_
  cases result <;> exact .pure _

theorem list_orderly (path : String) : Orderly (list path) := by
  refine .bind (require_orderly true path) fun ⟨location, node⟩ => ?_
  cases node with
  | folder entries => exact .pure _
  | file content modified => exact .failSystem _
  | link target => exact .failSystem _

theorem read_orderly (path : String) : Orderly (read path) := by
  refine .bind (require_orderly true path) fun ⟨location, node⟩ => ?_
  cases node with
  | folder entries => exact .failSystem _
  | file content modified => exact .pure _
  | link target => exact .failSystem _

theorem modified_orderly (path : String) : Orderly (modified path) := by
  refine .bind (require_orderly true path) fun ⟨location, node⟩ => ?_
  cases node with
  | folder entries => exact .failSystem _
  | file content modified => exact .pure _
  | link target => exact .failSystem _

theorem fill_none {w : World} (h : w.stepsLeft = none) (location : Location) (content : Bytes) :
    fill location content w =
      (.ok (), { w with root := Node.put location (.file content w.stamp) w.root }) := by
  obtain ⟨root, directory, clock, stamp, id, environment, switch, lines, steps⟩ := w
  obtain rfl : steps = none := h
  rfl

/-- With a number of steps left, at most so many bytes are written. -/
theorem fill_some {w : World} {n : Nat} (h : w.stepsLeft = some n) (location : Location)
    (content : Bytes) :
    fill location content w = (if n < content.length then .error .interrupted else .ok (),
      { w with
        root := Node.put location (.file (content.take n) w.stamp) w.root
        stepsLeft := some (n - content.length) }) := by
  obtain ⟨root, directory, clock, stamp, id, environment, switch, lines, steps⟩ := w
  obtain rfl : steps = some n := h
  rw [fill, bind_ok (get_apply _)]
  by_cases hn : n < content.length
  · simp only [hn, if_true]
    rfl
  · simp only [hn, if_false]
    rfl

theorem fill_orderly (location : Location) (content : Bytes) : Orderly (fill location content) := by
  constructor
  · intro w
    cases h : w.stepsLeft with
    | none =>
        rw [fill_none h]
        exact ⟨_, w.lines, w.stepsLeft, rfl⟩
    | some n =>
        rw [fill_some h]
        exact ⟨_, w.lines, _, rfl⟩
  · intro w hs
    rw [fill_none hs]
    exact ⟨nofun, hs⟩
  · rintro w _ ⟨lines, steps, rfl⟩ hs
    rw [fill_none hs]
    cases steps with
    | none =>
        rw [fill_none (by rfl)]
        exact .inr ⟨rfl, lines, none, rfl⟩
    | some n =>
        rw [fill_some (n := n) (by rfl)]
        by_cases hn : n < content.length
        · exact .inl (if_pos hn)
        · refine .inr ⟨if_neg hn, lines, some (n - content.length), ?_⟩
          rw [List.take_of_length_le (Nat.le_of_not_lt hn)]

theorem putStep_orderly (location : Location) (node : Node) : Orderly (putStep location node) :=
  .bind .step fun _ => .changeRoot _

theorem removeStep_orderly (location : Location) : Orderly (removeStep location) :=
  .bind .step fun _ => .changeRoot _

theorem writeAt_orderly (location : Location) (content : Bytes) :
    Orderly (writeAt location content) := by
  refine .bind .step fun _ => .get_bind (fun w => ?_) fun _ _ _ => rfl
  exact .bind (.changeRoot _) fun _ => fill_orderly location content

theorem writeFile_orderly (path : String) (content : Bytes) : Orderly (writeFile path content) := by
  refine .bind (.lookup true path) fun place => ?_
  split
  · exact .failSystem _
  · exact writeAt_orderly _ _
  · exact writeAt_orderly _ _

theorem makeFoldersFrom_orderly (path : String) (names : List String) :
    Orderly (makeFoldersFrom path names) := by
  induction names generalizing path with
  | nil => exact .pure _
  | cons name rest ih =>
      refine .bind (.lookup true _) fun place => ?_
      split
      · exact ih _
      · exact .failSystem _
      · refine .bind (.lookup false _) fun place => ?_
        split
        · exact .failSystem _
        · exact .bind (putStep_orderly _ _) fun _ => ih _

theorem makeFolders_orderly (path : String) : Orderly (makeFolders path) := by
  refine .get_bind (fun w => ?_) fun _ _ _ => rfl
  split
  · exact .failSystem _
  · split
    · exact .failSystem _
    · exact makeFoldersFrom_orderly _ _

theorem removeEntries_orderly {location : Location} {entries : List (String × Node)}
    (ih : ∀ e ∈ entries, ∀ location, Orderly (removeNode location e.2)) :
    Orderly (removeEntries location entries) := by
  induction entries with
  | nil => exact .pure _
  | cons e rest ihRest =>
      refine .bind (ih e List.mem_cons_self _) fun _ => ?_
      exact ihRest fun e' he => ih e' (List.mem_cons_of_mem _ he)

theorem removeNode_orderly (node : Node) : ∀ location, Orderly (removeNode location node) := by
  induction node using Node.induct with
  | file content modified => exact fun location => removeStep_orderly location
  | link target => exact fun location => removeStep_orderly location
  | folder entries ih =>
      exact fun location => .bind (removeEntries_orderly ih) fun _ => removeStep_orderly location

theorem removeAll_orderly (path : String) : Orderly (removeAll path) := by
  refine .bind (.attempt (.lookup false path)) fun result => ?_
  split
  · exact .pure _
  · split
    · exact .failSystem _
    · exact removeNode_orderly _ _
  · exact .pure _
  · exact .fail _

theorem rename_orderly (source target : String) : Orderly (rename source target) := by
  refine .bind (require_orderly false source) fun ⟨origin, node⟩ => ?_
  refine .bind (.lookup false target) fun place => ?_
  have hmove (goal : Location) : Orderly (do
      step
      changeRoot fun root => Node.put goal node (root.remove origin)) :=
    .bind .step fun _ => .changeRoot _
  cases place with
  | free goal =>
      simp only
      split
      · exact .pure _
      · split
        · exact .failSystem _
        · cases node <;> exact hmove goal
  | found goal there =>
      simp only
      split
      · exact .pure _
      · split
        · exact .failSystem _
        · split <;> first
            | exact .bind (.failSystem _) fun _ => hmove goal
            | exact hmove goal

theorem makeLink_orderly (target path : String) : Orderly (makeLink target path) := by
  rw [makeLink]
  split
  · exact .failSystem _
  · refine .bind (.lookup false path) fun place => ?_
    split
    · exact .failSystem _
    · exact putStep_orderly _ _

/-! ### Copying -/

theorem mergeEntries_orderly {entries : List (String × Node)}
    (ih : ∀ e ∈ entries, ∀ source target, Orderly (mergeNode source target e.2))
    (source target : String) : Orderly (mergeEntries source target entries) := by
  induction entries with
  | nil => exact .pure _
  | cons e rest ihRest =>
      refine .bind (ih e List.mem_cons_self _ _) fun _ => ?_
      exact ihRest fun e' he => ih e' (List.mem_cons_of_mem _ he)

theorem mergeNode_orderly (node : Node) :
    ∀ source target, Orderly (mergeNode source target node) := by
  induction node using Node.induct with
  | file content modified =>
      intro source target
      refine .bind (.lookup true target) fun place => ?_
      split
      · exact .failSystem _
      · exact writeFile_orderly _ _
  | folder entries ih =>
      intro source target
      have hentries := mergeEntries_orderly ih source target
      refine .bind (.lookup true target) fun place => ?_
      split
      · exact hentries
      · exact .failSystem _
      · refine .bind (.lookup false target) fun place => ?_
        split
        · exact .failSystem _
        · exact .bind (putStep_orderly _ _) fun _ => hentries
  | link aim =>
      intro source target
      refine .get_bind (fun w => ?_) fun _ _ _ => rfl
      have hmake := makeLink_orderly (Lookup.canonical w.root
        (if Path.isAbsolute aim then aim else Path.directory (absolute w source) ++ "/" ++ aim))
        target
      refine .bind (.lookup false target) fun place => ?_
      split
      · exact hmake
      · refine .bind (.attempt (require_orderly true target)) fun result => ?_
        split
        · exact .failSystem _
        · refine .bind (isFolder_answers aim).toOrderly fun inside => ?_
          exact .ite (.failSystem _) (.ite (.failSystem _) (.bind (removeStep_orderly _) fun _ => hmake))
      · exact .failSystem _

end ScriptPack.Files

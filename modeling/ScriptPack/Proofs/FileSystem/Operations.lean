import ScriptPack.FileSystem.Operations
import ScriptPack.FileSystem.Size
import ScriptPack.Proofs.Effect
import ScriptPack.Proofs.FileSystem.Walk

/-!
What each operation on files does when the process is not about to be stopped, said in terms of the
places that its paths lead to. Operations that only look leave the world as it is.
-/

namespace ScriptPack.Files

open Effect Node Lookup

variable {w : World} {root : Node} {path source target name : String} {loc origin goal : Location}
  {node : Node} {place : Place} {follow : Bool} {content : Bytes} {modified : Stamp}
  {entries : List (String × Node)} {error : SystemError} {result : Except Failure Place}

theorem absolute_behind (h : path ≠ "") (name : String) :
    absolute w (path ++ "/" ++ name) = absolute w path ++ "/" ++ name := by
  have habs : Path.isAbsolute (path ++ "/" ++ name) = Path.isAbsolute path := by
    rw [String.append_assoc, Path.isAbsolute_append_of_ne h]
  cases hrooted : Path.isAbsolute path with
  | true => rw [absolute_of_isAbsolute hrooted, absolute_of_isAbsolute (habs.trans hrooted)]
  | false =>
      rw [absolute_of_relative h hrooted, absolute_of_relative (by simp) (habs.trans hrooted)]
      simp only [String.append_assoc]

/-! ### Looking -/

theorem require_found (h : place? w.root follow (absolute w path) = .ok (.found loc node)) :
    require follow path w = (.ok (loc, node), w) := by
  rw [require, bind_ok (lookup_ok h)]
  rfl

theorem require_free (h : place? w.root follow (absolute w path) = .ok (.free loc)) :
    require follow path w = (.error (.failed (.system .noEntry)), w) := by
  rw [require, bind_ok (lookup_ok h)]
  rfl

theorem require_error (h : place? w.root follow (absolute w path) = .error error) :
    require follow path w = (.error (.failed (.system error)), w) := by
  rw [require, bind_error (lookup_error h)]

/-- Whether there is something at a path, when links are followed. -/
def Leads? (root : Node) (path : String) : Prop :=
  ∃ loc node, place? root true path = .ok (.found loc node)

theorem exists?_of_found (h : place? w.root true (absolute w path) = .ok (.found loc node)) :
    exists? path w = (.ok true, w) := by
  rw [exists?, bind_ok (attempt_ok (require_found h))]
  rfl

theorem exists?_of_not (h : ¬Leads? w.root (absolute w path)) : exists? path w = (.ok false, w) := by
  rw [exists?]
  cases hp : place? w.root true (absolute w path) with
  | error error =>
      rw [bind_ok (attempt_failed (require_error hp))]
      rfl
  | ok place =>
      cases place with
      | found loc node => exact absurd ⟨loc, node, hp⟩ h
      | free loc =>
          rw [bind_ok (attempt_failed (require_free hp))]
          rfl

/-- Looking whether something exists changes nothing. -/
theorem exists?_same (path : String) (w : World) : ∃ there, exists? path w = (.ok there, w) := by
  by_cases h : Leads? w.root (absolute w path)
  · obtain ⟨loc, node, hp⟩ := h
    exact ⟨true, exists?_of_found hp⟩
  · exact ⟨false, exists?_of_not h⟩

theorem list_folder
    (h : place? w.root true (absolute w path) = .ok (.found loc (.folder entries))) :
    list path w = (.ok entries, w) := by
  rw [list, bind_ok (require_found h)]
  rfl

/-- Listing changes nothing. -/
theorem list_same (path : String) (w : World) :
    (∃ entries, list path w = (.ok entries, w)) ∨
      ∃ failure, list path w = (.error (.failed failure), w) := by
  cases hp : place? w.root true (absolute w path) with
  | error error => exact .inr ⟨_, by rw [list, bind_error (require_error hp)]⟩
  | ok place =>
      cases place with
      | free loc => exact .inr ⟨_, by rw [list, bind_error (require_free hp)]⟩
      | found loc node =>
          rw [list, bind_ok (require_found hp)]
          cases node with
          | folder entries => exact .inl ⟨entries, rfl⟩
          | file content modified => exact .inr ⟨_, rfl⟩
          | link target => exact .inr ⟨_, rfl⟩

theorem read_file
    (h : place? w.root true (absolute w path) = .ok (.found loc (.file content modified))) :
    read path w = (.ok content, w) := by
  rw [read, bind_ok (require_found h)]
  rfl

/-- Where there is no file, nothing is read. -/
theorem read_not_file
    (h : ∀ loc content modified,
      place? w.root true (absolute w path) ≠ .ok (.found loc (.file content modified))) :
    ∃ failure, read path w = (.error (.failed failure), w) := by
  cases hp : place? w.root true (absolute w path) with
  | error error => exact ⟨_, by rw [read, bind_error (require_error hp)]⟩
  | ok place =>
      cases place with
      | free loc => exact ⟨_, by rw [read, bind_error (require_free hp)]⟩
      | found loc node =>
          cases node with
          | file content modified => exact absurd hp (h loc content modified)
          | folder entries => exact ⟨.system .isDirectory, by rw [read, bind_ok (require_found hp)]; rfl⟩
          | link target => exact ⟨.system .noEntry, by rw [read, bind_ok (require_found hp)]; rfl⟩

/-- Reading changes nothing. -/
theorem read_same (path : String) (w : World) :
    (∃ bytes, read path w = (.ok bytes, w)) ∨
      ∃ failure, read path w = (.error (.failed failure), w) := by
  by_cases hf : ∃ loc content modified,
      place? w.root true (absolute w path) = .ok (.found loc (.file content modified))
  · obtain ⟨loc, content, modified, hf⟩ := hf
    exact .inl ⟨content, read_file hf⟩
  · exact .inr (read_not_file fun loc content modified hp => hf ⟨loc, content, modified, hp⟩)

theorem size_found (h : place? w.root false (absolute w path) = .ok (.found loc node)) :
    size path w = (.ok node.size, w) := by
  rw [size, bind_ok (attempt_ok (lookup_ok h))]
  rfl

/-! ### Writing and removing -/

theorem putStep_does (hs : w.stepsLeft = none) (loc : Location) (node : Node) :
    Does (putStep loc node) w () (put loc node w.root) := by
  rw [putStep, Does, bind_ok (step_apply hs)]
  exact changeRoot_does _ w

theorem removeStep_does (hs : w.stepsLeft = none) (loc : Location) :
    Does (removeStep loc) w () (w.root.remove loc) := by
  rw [removeStep, Does, bind_ok (step_apply hs)]
  exact changeRoot_does _ w

theorem writeAt_does (hs : w.stepsLeft = none) (hw : w.root.WellFormed) (loc : Location)
    (content : Bytes) :
    Does (writeAt loc content) w () (put loc (.file content w.stamp) w.root) := by
  rw [writeAt, Does, bind_ok (step_apply hs), bind_ok (get_apply w)]
  refine (changeRoot_does _ w).bind fun w' he => ?_
  rw [fill, Does, bind_ok (get_apply w')]
  simp only [he.stepsLeft_eq, hs]
  have hput : put loc (.file content w.stamp) (put loc (.file [] w.stamp) w.root) =
      put loc (.file content w.stamp) w.root := put_put hw
  rw [← hput, ← he.root_eq, ← he.stamp_eq]
  exact changeRoot_does _ w'

/-- Writing puts a file at the place that the path leads to. -/
theorem writeFile_does (hs : w.stepsLeft = none) (hw : w.root.WellFormed)
    (h : place? w.root true (absolute w path) = .ok place)
    (hf : ∀ loc entries, place ≠ .found loc (.folder entries)) (content : Bytes) :
    Does (writeFile path content) w () (put place.location (.file content w.stamp) w.root) := by
  rw [writeFile, Does, bind_ok (lookup_ok h)]
  cases place with
  | free loc => exact writeAt_does hs hw loc content
  | found loc node =>
      cases node with
      | folder entries => exact absurd rfl (hf loc entries)
      | file old modified => exact writeAt_does hs hw loc content
      | link aim => exact writeAt_does hs hw loc content

theorem writeFile_folder
    (h : place? w.root true (absolute w path) = .ok (.found loc (.folder entries)))
    (content : Bytes) :
    writeFile path content w = (.error (.failed (.system .isDirectory)), w) := by
  rw [writeFile, bind_ok (lookup_ok h)]
  rfl

theorem writeFile_error (h : place? w.root true (absolute w path) = .error error)
    (content : Bytes) : writeFile path content w = (.error (.failed (.system error)), w) := by
  rw [writeFile, bind_error (lookup_error h)]

theorem removeEntries_does {entries : List (String × Node)}
    (ih : ∀ e ∈ entries, ∀ loc w, loc ≠ [] → w.stepsLeft = none → w.root.WellFormed →
      Does (removeNode loc e.2) w () (w.root.remove loc))
    (hl : loc ≠ []) (hs : w.stepsLeft = none) (hw : w.root.WellFormed) :
    ∃ root, Does (removeEntries loc entries) w () root ∧ root.WellFormed ∧
      root.remove loc = w.root.remove loc := by
  induction entries generalizing w with
  | nil => exact ⟨w.root, does_pure () w, hw, rfl⟩
  | cons e rest ih' =>
      obtain ⟨name, node⟩ := e
      obtain ⟨w₁, hx, he⟩ := ih _ List.mem_cons_self (loc ++ [name]) w (by simp) hs hw
      have hw₁ : w₁.root.WellFormed := by
        rw [he.root_eq]
        exact hw.remove _
      obtain ⟨root, hd, hwf, hr⟩ := ih' (w := w₁)
        (fun e he => ih e (List.mem_cons_of_mem _ he)) (he.stepsLeft_eq.trans hs) hw₁
      refine ⟨root, ?_, hwf, ?_⟩
      · rw [removeEntries, Does, bind_ok hx]
        obtain ⟨w₂, hx', he'⟩ := hd
        exact ⟨w₂, hx', he.trans he'⟩
      · rw [hr, he.root_eq, remove_remove_append hw hl]

/-- Removing a node removes all that is in it. -/
theorem removeNode_does (node : Node) (hl : loc ≠ []) (hs : w.stepsLeft = none)
    (hw : w.root.WellFormed) : Does (removeNode loc node) w () (w.root.remove loc) := by
  induction node using Node.induct generalizing loc w with
  | file content modified =>
      rw [removeNode]
      · exact removeStep_does hs loc
      · nofun
  | link aim =>
      rw [removeNode]
      · exact removeStep_does hs loc
      · nofun
  | folder entries ih =>
      obtain ⟨root, hd, -, hr⟩ := removeEntries_does (fun e he loc w => ih e he) hl hs hw
      rw [removeNode, ← hr]
      refine hd.bind fun w' he => ?_
      rw [← he.root_eq]
      exact removeStep_does (he.stepsLeft_eq.trans hs) loc

theorem removeAll_found (hl : loc ≠ []) (hs : w.stepsLeft = none) (hw : w.root.WellFormed)
    (h : place? w.root false (absolute w path) = .ok (.found loc node)) :
    Does (removeAll path) w () (w.root.remove loc) := by
  rw [removeAll, Does, bind_ok (attempt_ok (lookup_ok h))]
  simp only [List.isEmpty_iff, hl, if_false]
  exact removeNode_does node hl hs hw

theorem removeAll_free (h : place? w.root false (absolute w path) = .ok (.free loc)) :
    removeAll path w = (.ok (), w) := by
  rw [removeAll, bind_ok (attempt_ok (lookup_ok h))]
  rfl

theorem removeAll_noEntry (h : place? w.root false (absolute w path) = .error .noEntry) :
    removeAll path w = (.ok (), w) := by
  rw [removeAll, bind_ok (attempt_failed (lookup_error h))]
  rfl

theorem removeAll_error (h : place? w.root false (absolute w path) = .error error)
    (hne : error ≠ .noEntry) :
    removeAll path w = (.error (.failed (.system error)), w) := by
  rw [removeAll, bind_ok (attempt_failed (lookup_error h))]
  cases error <;> first | rfl | exact absurd rfl hne

/-- Whether a node can take a place by way of a new name. -/
def CanTake (node : Node) : Place → Prop
  | .free _ => True
  | .found _ there => node.isFolder = false ∧ there.isFolder = false

theorem rename_does (hs : w.stepsLeft = none)
    (h : place? w.root false (absolute w source) = .ok (.found origin node))
    (h' : place? w.root false (absolute w target) = .ok place)
    (hp : ¬origin <+: place.location) (hk : CanTake node place) :
    Does (rename source target) w () (put place.location node (w.root.remove origin)) := by
  have hne : (place.location == origin) = false :=
    beq_false_of_ne fun heq => hp (heq ▸ List.prefix_refl _)
  have hpre : origin.isPrefixOf place.location = false := by
    rw [Bool.eq_false_iff, ne_eq, List.isPrefixOf_iff_prefix]
    exact hp
  have hgo : Does (do step; changeRoot fun root => put place.location node (root.remove origin)) w ()
      (put place.location node (w.root.remove origin)) := by
    rw [Does, bind_ok (step_apply hs)]
    exact changeRoot_does _ w
  rw [rename, Does, bind_ok (require_found h)]
  simp only
  rw [bind_ok (lookup_ok h')]
  cases place with
  | free goal =>
      simp only [Place.location] at hne hpre hgo ⊢
      simp only [hne, hpre, Bool.false_eq_true, if_false]
      cases node <;> exact hgo
  | found goal there =>
      obtain ⟨hk₁, hk₂⟩ := hk
      simp only [Place.location] at hne hpre hgo ⊢
      simp only [hne, hpre, Bool.false_eq_true, if_false]
      cases node <;> cases there <;> first
        | exact hgo
        | simp [Node.isFolder] at hk₁ hk₂

theorem rename_onto_folder {content : Bytes} {modified : Stamp} {entries : List (String × Node)}
    {goal : Location}
    (h : place? w.root false (absolute w source) = .ok (.found origin (.file content modified)))
    (h' : place? w.root false (absolute w target) = .ok (.found goal (.folder entries)))
    (hp : ¬origin <+: goal) :
    rename source target w = (.error (.failed (.system .isDirectory)), w) := by
  have hne : (goal == origin) = false :=
    beq_false_of_ne fun heq => hp (heq ▸ List.prefix_refl _)
  have hpre : origin.isPrefixOf goal = false := by
    rw [Bool.eq_false_iff, ne_eq, List.isPrefixOf_iff_prefix]
    exact hp
  rw [rename, bind_ok (require_found h)]
  simp only
  rw [bind_ok (lookup_ok h')]
  simp only [hne, hpre, Bool.false_eq_true, if_false]
  rfl

theorem rename_folder_onto {below : List (String × Node)} {goal : Location}
    (h : place? w.root false (absolute w source) = .ok (.found origin (.folder below)))
    (h' : place? w.root false (absolute w target) = .ok (.found goal node))
    (hp : ¬origin <+: goal) (hk : node.isFolder = false) :
    rename source target w = (.error (.failed (.system .notDirectory)), w) := by
  have hne : (goal == origin) = false :=
    beq_false_of_ne fun heq => hp (heq ▸ List.prefix_refl _)
  have hpre : origin.isPrefixOf goal = false := by
    rw [Bool.eq_false_iff, ne_eq, List.isPrefixOf_iff_prefix]
    exact hp
  rw [rename, bind_ok (require_found h)]
  simp only
  rw [bind_ok (lookup_ok h')]
  simp only [hne, hpre, Bool.false_eq_true, if_false]
  cases node with
  | folder entries => cases hk
  | file content modified => rfl
  | link aim => rfl

end ScriptPack.Files

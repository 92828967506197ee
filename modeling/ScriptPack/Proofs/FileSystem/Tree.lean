import ScriptPack.FileSystem.Size

/-!
Trees of files. A tree is well formed if the entries of every folder have proper names, each once
and in order; every file system is such a tree. On well-formed trees `alter` works on the node at a
location as on a cell: reading gives what was written, other locations are untouched, and a second
change takes the place of a first one.
-/

namespace ScriptPack.Node

/-- Whether a text can be the name of an entry of a folder. -/
def IsName (name : String) : Prop :=
  name ≠ "" ∧ name ≠ "." ∧ name ≠ ".." ∧ '/' ∉ name.toList ∧ '\x00' ∉ name.toList

instance (name : String) : Decidable (IsName name) := inferInstanceAs (Decidable (_ ∧ _))

/-- The names of entries are in strictly ascending order. -/
def Sorted (entries : List (String × Node)) : Prop := entries.Pairwise (·.1 < ·.1)

inductive WellFormed : Node → Prop
  | file (content : Bytes) (modified : Stamp) : WellFormed (.file content modified)
  | link (target : String) : WellFormed (.link target)
  | folder (entries : List (String × Node)) (sorted : Sorted entries)
      (names : ∀ e ∈ entries, IsName e.1) (nodes : ∀ e ∈ entries, WellFormed e.2) :
      WellFormed (.folder entries)

/-- No symbolic link is anywhere in the tree. -/
inductive LinkFree : Node → Prop
  | file (content : Bytes) (modified : Stamp) : LinkFree (.file content modified)
  | folder (entries : List (String × Node)) (nodes : ∀ e ∈ entries, LinkFree e.2) :
      LinkFree (.folder entries)

mutual

/-- The tree without the times of modification: names, kinds and bytes. -/
def contents : Node → Node
  | file content _ => file content ⟨0, 0⟩
  | folder entries => folder (contentsOf entries)
  | link target => link target

def contentsOf : List (String × Node) → List (String × Node)
  | [] => []
  | (name, node) :: rest => (name, node.contents) :: contentsOf rest

end

/-- Induction on a tree: a folder has the property if all its entries have it. -/
theorem induct {P : Node → Prop} (file : ∀ content modified, P (.file content modified))
    (link : ∀ target, P (.link target))
    (folder : ∀ entries, (∀ e ∈ entries, P e.2) → P (.folder entries)) (node : Node) : P node := by
  refine @Node.rec P (fun entries => ∀ e ∈ entries, P e.2) (fun e => P e.2) file folder link
    ?_ ?_ ?_ node
  · intro e he
    cases he
  · intro e rest he ih e' he'
    rcases List.mem_cons.mp he' with rfl | he'
    · exact he
    · exact ih e' he'
  · intro name node h
    exact h

instance (entries : List (String × Node)) : Decidable (Sorted entries) :=
  inferInstanceAs (Decidable (List.Pairwise _ _))

mutual

/-- Whether the tree is well formed. -/
def checks : Node → Bool
  | file _ _ => true
  | link _ => true
  | folder entries => decide (Sorted entries) && checksAll entries

def checksAll : List (String × Node) → Bool
  | [] => true
  | (name, node) :: rest => decide (IsName name) && node.checks && checksAll rest

end

theorem checksAll_iff {entries : List (String × Node)} :
    checksAll entries = true ↔ ∀ e ∈ entries, IsName e.1 ∧ e.2.checks = true := by
  induction entries with
  | nil => simp [checksAll]
  | cons e rest ih =>
      obtain ⟨name, node⟩ := e
      simp [checksAll, ih]

theorem checks_iff (node : Node) : node.checks = true ↔ node.WellFormed := by
  induction node using induct with
  | file content modified => exact ⟨fun _ => .file _ _, fun _ => by simp only [checks]⟩
  | link target => exact ⟨fun _ => .link _, fun _ => by simp only [checks]⟩
  | folder entries ih =>
      rw [checks, Bool.and_eq_true, decide_eq_true_iff, checksAll_iff]
      constructor
      · rintro ⟨hsorted, hall⟩
        exact .folder entries hsorted (fun e he => (hall e he).1)
          fun e he => (ih e he).mp (hall e he).2
      · rintro (_ | _ | ⟨_, hsorted, hnames, hnodes⟩)
        exact ⟨hsorted, fun e he => ⟨hnames e he, (ih e he).mpr (hnodes e he)⟩⟩

instance (node : Node) : Decidable node.WellFormed := decidable_of_iff _ node.checks_iff

mutual

/-- Whether two nodes are the same. -/
def decideEq : (a b : Node) → Decidable (a = b)
  | file content modified, file content' modified' =>
    decidable_of_iff (content = content' ∧ modified = modified') (by simp)
  | folder entries, folder entries' =>
    have := decideEntriesEq entries entries'
    decidable_of_iff (entries = entries') (by simp)
  | link target, link target' => decidable_of_iff (target = target') (by simp)
  | file .., folder _ => isFalse nofun
  | file .., link _ => isFalse nofun
  | folder _, file .. => isFalse nofun
  | folder _, link _ => isFalse nofun
  | link _, file .. => isFalse nofun
  | link _, folder _ => isFalse nofun

def decideEntriesEq : (a b : List (String × Node)) → Decidable (a = b)
  | [], [] => isTrue rfl
  | [], _ :: _ => isFalse nofun
  | _ :: _, [] => isFalse nofun
  | (name, node) :: rest, (name', node') :: rest' =>
    have := decideEq node node'
    have := decideEntriesEq rest rest'
    decidable_of_iff ((name = name' ∧ node = node') ∧ rest = rest') (by simp)

end

instance : DecidableEq Node := decideEq

theorem wellFormed_empty : WellFormed .empty := .folder [] .nil nofun nofun

variable {name other : String} {node new : Node} {entries rest : List (String × Node)}
  {f g : Option Node → Option Node}

@[simp] theorem child?_folder (entries : List (String × Node)) (name : String) :
    (folder entries).child? name = entries.lookup name := rfl

theorem lookup_cons_eq (name : String) (node : Node) (rest : List (String × Node)) :
    ((name, node) :: rest).lookup name = some node := by
  simp

theorem lookup_cons_ne (h : name ≠ other) :
    ((other, node) :: rest).lookup name = rest.lookup name := by
  simp [List.lookup_cons, beq_false_of_ne h]

theorem mem_of_lookup (h : entries.lookup name = some node) : (name, node) ∈ entries := by
  induction entries with
  | nil => cases h
  | cons e rest ih =>
      obtain ⟨other, node'⟩ := e
      by_cases hn : name = other
      · subst hn
        rw [lookup_cons_eq] at h
        cases h
        exact List.mem_cons_self
      · rw [lookup_cons_ne hn] at h
        exact List.mem_cons_of_mem _ (ih h)

namespace Sorted

theorem tail {e : String × Node} (h : Sorted (e :: rest)) : Sorted rest :=
  (List.pairwise_cons.mp h).2

theorem head_lt {e : String × Node} (h : Sorted (e :: rest)) :
    ∀ e' ∈ rest, e.1 < e'.1 := (List.pairwise_cons.mp h).1

/-- A name before the first one is not there. -/
theorem lookup_eq_none_of_lt (h : Sorted ((other, node) :: rest)) (hn : name < other) :
    ((other, node) :: rest).lookup name = none := by
  rw [List.lookup_eq_none_iff]
  intro e he
  rcases List.mem_cons.mp he with rfl | he
  · simpa using fun heq : name = other => String.lt_irrefl _ (heq ▸ hn)
  · have hlt := String.lt_trans hn (h.head_lt e he)
    simpa using fun heq : name = e.1 => String.lt_irrefl _ (heq ▸ hlt)

theorem lookup_head_eq_none (h : Sorted ((name, node) :: rest)) : rest.lookup name = none := by
  rw [List.lookup_eq_none_iff]
  intro e he
  simpa using fun heq : name = e.1 => String.lt_irrefl _ (heq ▸ h.head_lt e he)

theorem lookup_of_mem (h : Sorted entries) (hm : (name, node) ∈ entries) :
    entries.lookup name = some node := by
  induction entries with
  | nil => cases hm
  | cons e rest ih =>
      rcases List.mem_cons.mp hm with rfl | hm
      · exact lookup_cons_eq _ _ _
      · have hlt := h.head_lt _ hm
        rw [lookup_cons_ne fun heq => String.lt_irrefl _ (heq ▸ hlt)]
        exact ih h.tail hm

end Sorted

/-- Two names are the same, or one comes before the other. -/
theorem name_order (name other : String) : name = other ∨ name < other ∨ other < name := by
  by_cases h : name < other
  · exact .inr (.inl h)
  · by_cases h' : other < name
    · exact .inr (.inr h')
    · exact .inl (String.le_antisymm h' h)

/-! ### One entry of a folder -/

theorem alterEntry_self :
    alterEntry name f ((name, node) :: rest) =
      match f (some node) with
      | none => rest
      | some new => (name, new) :: rest := by
  cases hf : f (some node) <;> simp only [alterEntry, beq_self_eq_true, if_true, hf]

theorem alterEntry_before (h : name < other) :
    alterEntry name f ((other, node) :: rest) =
      match f none with
      | none => (other, node) :: rest
      | some new => (name, new) :: (other, node) :: rest := by
  have hne : (name == other) = false :=
    beq_false_of_ne fun heq => String.lt_irrefl _ (heq ▸ h)
  cases hf : f none <;> simp only [alterEntry, hne, Bool.false_eq_true, if_false, h, if_true, hf]

theorem alterEntry_after (h : other < name) :
    alterEntry name f ((other, node) :: rest) = (other, node) :: alterEntry name f rest := by
  have hne : (name == other) = false :=
    beq_false_of_ne fun heq => String.lt_irrefl _ (heq ▸ h)
  simp only [alterEntry, hne, Bool.false_eq_true, if_false, String.lt_asymm h]

theorem mem_alterEntry {e : String × Node} (h : e ∈ alterEntry name f entries) :
    e ∈ entries ∨ e.1 = name ∧ ∃ old, f old = some e.2 := by
  induction entries with
  | nil =>
      simp only [alterEntry] at h
      split at h
      · cases h
      · rename_i new hnew
        rw [List.mem_singleton] at h
        exact .inr ⟨by rw [h], none, by rw [h, hnew]⟩
  | cons e' rest ih =>
      obtain ⟨other, node⟩ := e'
      rcases name_order name other with rfl | hlt | hlt
      · rw [alterEntry_self] at h
        split at h
        · exact .inl (List.mem_cons_of_mem _ h)
        · rename_i new hnew
          rcases List.mem_cons.mp h with rfl | h
          · exact .inr ⟨rfl, _, hnew⟩
          · exact .inl (List.mem_cons_of_mem _ h)
      · rw [alterEntry_before hlt] at h
        split at h
        · exact .inl h
        · rename_i new hnew
          rcases List.mem_cons.mp h with rfl | h
          · exact .inr ⟨rfl, _, hnew⟩
          · exact .inl h
      · rw [alterEntry_after hlt] at h
        rcases List.mem_cons.mp h with rfl | h
        · exact .inl List.mem_cons_self
        · rcases ih h with h | h
          · exact .inl (List.mem_cons_of_mem _ h)
          · exact .inr h

theorem Sorted.alterEntry (h : Sorted entries) (name : String)
    (f : Option Node → Option Node) : Sorted (alterEntry name f entries) := by
  induction entries with
  | nil =>
      simp only [Node.alterEntry]
      split
      · exact .nil
      · exact List.pairwise_singleton _ _
  | cons e rest ih =>
      obtain ⟨other, node⟩ := e
      rcases name_order name other with rfl | hlt | hlt
      · rw [alterEntry_self]
        split
        · exact h.tail
        · exact List.pairwise_cons.mpr ⟨h.head_lt, h.tail⟩
      · rw [alterEntry_before hlt]
        split
        · exact h
        · refine List.pairwise_cons.mpr ⟨fun e he => ?_, h⟩
          rcases List.mem_cons.mp he with rfl | he
          · exact hlt
          · exact String.lt_trans hlt (h.head_lt e he)
      · rw [alterEntry_after hlt]
        refine List.pairwise_cons.mpr ⟨fun e he => ?_, ih h.tail⟩
        rcases mem_alterEntry he with he | ⟨he, -⟩
        · exact h.head_lt e he
        · rw [he]
          exact hlt

theorem lookup_alterEntry_self (h : Sorted entries) :
    (alterEntry name f entries).lookup name = f (entries.lookup name) := by
  induction entries with
  | nil =>
      simp only [alterEntry, List.lookup_nil]
      split
      · rename_i hf
        rw [List.lookup_nil, hf]
      · rename_i new hf
        rw [lookup_cons_eq, hf]
  | cons e rest ih =>
      obtain ⟨other, node⟩ := e
      rcases name_order name other with rfl | hlt | hlt
      · rw [alterEntry_self, lookup_cons_eq]
        split
        · rename_i hf
          rw [h.lookup_head_eq_none, hf]
        · rename_i new hf
          rw [lookup_cons_eq, hf]
      · rw [alterEntry_before hlt, h.lookup_eq_none_of_lt hlt]
        split
        · rename_i hf
          rw [h.lookup_eq_none_of_lt hlt, hf]
        · rename_i new hf
          rw [lookup_cons_eq, hf]
      · have hne : name ≠ other := fun heq => String.lt_irrefl _ (heq ▸ hlt)
        rw [alterEntry_after hlt, lookup_cons_ne hne, lookup_cons_ne hne, ih h.tail]

theorem lookup_alterEntry_of_ne {key : String} (hne : key ≠ name) :
    (alterEntry name f entries).lookup key = entries.lookup key := by
  induction entries with
  | nil =>
      simp only [alterEntry]
      split
      · rfl
      · rw [lookup_cons_ne hne]
  | cons e rest ih =>
      obtain ⟨other, node⟩ := e
      rcases name_order name other with rfl | hlt | hlt
      · rw [alterEntry_self, lookup_cons_ne hne]
        split
        · rfl
        · rw [lookup_cons_ne hne]
      · rw [alterEntry_before hlt]
        split
        · rfl
        · rw [lookup_cons_ne hne]
      · rw [alterEntry_after hlt]
        by_cases hk : key = other
        · rw [hk, lookup_cons_eq, lookup_cons_eq]
        · rw [lookup_cons_ne hk, lookup_cons_ne hk, ih]

/-- Only what is done to the present entry matters. -/
theorem alterEntry_congr (h : Sorted entries)
    (hfg : f (entries.lookup name) = g (entries.lookup name)) :
    alterEntry name f entries = alterEntry name g entries := by
  induction entries with
  | nil =>
      rw [List.lookup_nil] at hfg
      simp only [alterEntry, hfg]
  | cons e rest ih =>
      obtain ⟨other, node⟩ := e
      rcases name_order name other with rfl | hlt | hlt
      · rw [lookup_cons_eq] at hfg
        rw [alterEntry_self, alterEntry_self, hfg]
      · rw [h.lookup_eq_none_of_lt hlt] at hfg
        rw [alterEntry_before hlt, alterEntry_before hlt, hfg]
      · have hne : name ≠ other := fun heq => String.lt_irrefl _ (heq ▸ hlt)
        rw [lookup_cons_ne hne] at hfg
        rw [alterEntry_after hlt, alterEntry_after hlt, ih h.tail hfg]

/-- A change that leaves the present entry as it is changes nothing. -/
theorem alterEntry_id (h : Sorted entries) (hf : f (entries.lookup name) = entries.lookup name) :
    alterEntry name f entries = entries := by
  induction entries with
  | nil =>
      rw [List.lookup_nil] at hf
      simp only [alterEntry, hf]
  | cons e rest ih =>
      obtain ⟨other, node⟩ := e
      rcases name_order name other with rfl | hlt | hlt
      · rw [lookup_cons_eq] at hf
        rw [alterEntry_self, hf]
      · rw [h.lookup_eq_none_of_lt hlt] at hf
        rw [alterEntry_before hlt, hf]
      · have hne : name ≠ other := fun heq => String.lt_irrefl _ (heq ▸ hlt)
        rw [lookup_cons_ne hne] at hf
        rw [alterEntry_after hlt, ih h.tail hf]

theorem alterEntry_alterEntry (h : Sorted entries) :
    alterEntry name f (alterEntry name g entries) =
      alterEntry name (fun old => f (g old)) entries := by
  induction entries with
  | nil =>
      simp only [alterEntry]
      cases hg : g none with
      | none => simp only [alterEntry]
      | some new => cases hf : f (some new) <;> simp only [alterEntry_self, hf]
  | cons e rest ih =>
      obtain ⟨other, node⟩ := e
      rcases name_order name other with rfl | hlt | hlt
      · rw [alterEntry_self, alterEntry_self]
        cases hg : g (some node) with
        | none =>
            cases rest with
            | nil => cases hf : f none <;> simp only [alterEntry, hf]
            | cons e rest =>
                have hlt := h.head_lt e List.mem_cons_self
                simp only [alterEntry_before hlt]
        | some new => simp only [alterEntry_self]
      · rw [alterEntry_before hlt, alterEntry_before hlt]
        cases hg : g none with
        | none => simp only [alterEntry_before hlt]
        | some new => simp only [alterEntry_self]
      · rw [alterEntry_after hlt, alterEntry_after hlt, alterEntry_after hlt, ih h.tail]

/-! ### The node at a location -/

/-- The node alone: a folder without its entries. -/
def bare : Node → Node
  | folder _ => folder []
  | node => node

variable {root : Node} {loc loc' tail : Location}

@[simp] theorem at?_nil (node : Node) : node.at? [] = some node := rfl

theorem at?_cons (node : Node) (name : String) (tail : Location) :
    node.at? (name :: tail) = (node.child? name).bind (·.at? tail) := by
  simp only [at?]
  cases node.child? name <;> rfl

theorem at?_append (node : Node) (loc tail : Location) :
    node.at? (loc ++ tail) = (node.at? loc).bind (·.at? tail) := by
  induction loc generalizing node with
  | nil => rfl
  | cons name loc ih =>
      rw [List.cons_append, at?_cons, at?_cons]
      cases node.child? name with
      | none => rfl
      | some child => exact ih child

theorem at?_append_of_eq (h : root.at? loc = some node) :
    root.at? (loc ++ tail) = node.at? tail := by
  rw [at?_append, h]
  rfl

theorem at?_folder_child (h : root.at? loc = some (.folder entries)) (name : String) :
    root.at? (loc ++ [name]) = entries.lookup name := by
  rw [at?_append_of_eq h, at?_cons, child?_folder]
  cases entries.lookup name <;> rfl

/-- What is above a node is a folder. -/
theorem exists_folder_of_at?_append (h : root.at? (loc ++ name :: tail) = some node) :
    ∃ entries, root.at? loc = some (.folder entries) := by
  rw [at?_append] at h
  cases hl : root.at? loc with
  | none => simp [hl] at h
  | some parent =>
      cases parent with
      | folder entries => exact ⟨entries, rfl⟩
      | file content modified => simp [hl, at?_cons, child?, entries] at h
      | link target => simp [hl, at?_cons, child?, entries] at h

theorem alter_singleton :
    alter f [name] (.folder entries) = .folder (alterEntry name f entries) := rfl

theorem alter_cons (h : tail ≠ []) :
    alter f (name :: tail) (.folder entries) =
      .folder (alterEntry name (fun child => child.map (alter f tail)) entries) := by
  simp only [alter, List.isEmpty_iff, h, if_false]

/-- A change below a location is a change of the node there. -/
theorem alter_append (hl : loc ≠ []) (ht : tail ≠ []) :
    alter f (loc ++ tail) root = alter (fun node => node.map (alter f tail)) loc root := by
  induction loc generalizing root with
  | nil => exact absurd rfl hl
  | cons name loc ih =>
      cases root with
      | file content modified => rfl
      | link target => rfl
      | folder entries =>
          rw [List.cons_append, alter_cons (by simp [ht])]
          cases loc with
          | nil => rfl
          | cons name' loc =>
              rw [alter_cons (by simp)]
              congr 2
              funext child
              cases child with
              | none => rfl
              | some child => exact congrArg some (ih (by simp))

theorem WellFormed.sorted (h : WellFormed (.folder entries)) : Sorted entries := by
  cases h
  assumption

theorem WellFormed.isName (h : WellFormed (.folder entries)) (hl : entries.lookup name = some node) :
    IsName name := by
  cases h with
  | folder entries sorted names nodes => exact names _ (mem_of_lookup hl)

theorem WellFormed.lookup (h : WellFormed (.folder entries))
    (hl : entries.lookup name = some node) : node.WellFormed := by
  cases h with
  | folder entries sorted names nodes => exact nodes _ (mem_of_lookup hl)

theorem WellFormed.child? (h : root.WellFormed) (hc : root.child? name = some node) :
    node.WellFormed := by
  cases root with
  | folder entries => exact h.lookup hc
  | file content modified => cases hc
  | link target => cases hc

theorem WellFormed.at? (h : root.WellFormed) (hl : root.at? loc = some node) :
    node.WellFormed := by
  induction loc generalizing root with
  | nil =>
      cases hl
      exact h
  | cons name loc ih =>
      rw [at?_cons] at hl
      cases hc : root.child? name with
      | none => simp [hc] at hl
      | some child =>
          rw [hc] at hl
          exact ih (h.child? hc) hl

theorem WellFormed.isName_of_mem (h : root.WellFormed) (hl : root.at? loc = some node)
    (hn : name ∈ loc) : IsName name := by
  obtain ⟨before, after, rfl⟩ := List.append_of_mem hn
  obtain ⟨entries, he⟩ := exists_folder_of_at?_append hl
  rw [at?_append_of_eq he, at?_cons] at hl
  cases hc : entries.lookup name with
  | none => simp [hc] at hl
  | some child => exact (h.at? he).isName hc

theorem WellFormed.alterEntry (h : WellFormed (.folder entries)) (hn : IsName name)
    (hf : ∀ new, f (entries.lookup name) = some new → new.WellFormed) :
    WellFormed (.folder (alterEntry name f entries)) := by
  rw [alterEntry_congr h.sorted (g := fun _ => f (entries.lookup name)) rfl]
  cases h with
  | folder entries sorted names nodes =>
      refine .folder _ (sorted.alterEntry _ _) (fun e he => ?_) (fun e he => ?_)
      · rcases mem_alterEntry he with he | ⟨rfl, -⟩
        · exact names e he
        · exact hn
      · rcases mem_alterEntry he with he | ⟨-, old, hnew⟩
        · exact nodes e he
        · exact hf _ hnew

theorem WellFormed.alter (h : root.WellFormed) (hn : ∀ name ∈ loc, IsName name)
    (hf : ∀ new, f (root.at? loc) = some new → new.WellFormed) :
    (alter f loc root).WellFormed := by
  induction loc generalizing root with
  | nil =>
      simp only [Node.alter]
      cases hr : f (some root) with
      | none => exact h
      | some new => exact hf new hr
  | cons name loc ih =>
      cases root with
      | file content modified => exact h
      | link target => exact h
      | folder entries =>
          have hname := hn name List.mem_cons_self
          by_cases hl : loc = []
          · subst hl
            refine h.alterEntry hname fun new hnew => hf new ?_
            rw [at?_cons, child?_folder]
            cases hc : entries.lookup name <;> simpa [hc] using hnew
          · rw [alter_cons hl]
            refine h.alterEntry hname fun new hnew => ?_
            cases hc : entries.lookup name with
            | none => simp [hc] at hnew
            | some child =>
                rw [hc, Option.map_some, Option.some.injEq] at hnew
                rw [← hnew]
                refine ih (h.lookup hc) (fun n hn' => hn n (List.mem_cons_of_mem _ hn'))
                  fun new hnew => hf new ?_
                rw [at?_cons, child?_folder, hc]
                exact hnew

theorem bare_alter (h : loc ≠ []) : (alter f loc root).bare = root.bare := by
  cases loc with
  | nil => exact absurd rfl h
  | cons name loc =>
      cases root with
      | file content modified => rfl
      | link target => rfl
      | folder entries =>
          simp only [alter]
          split <;> rfl

/-- Elsewhere a change can be seen only in the entries of the folders above it. -/
theorem at?_alter_bare (h : root.WellFormed) (hp : ¬loc <+: loc') :
    ((alter f loc root).at? loc').map bare = (root.at? loc').map bare := by
  induction loc generalizing root loc' with
  | nil => exact absurd List.nil_prefix hp
  | cons name loc ih =>
      cases root with
      | file content modified => rfl
      | link target => rfl
      | folder entries =>
          cases loc' with
          | nil =>
              rw [at?_nil, at?_nil, Option.map_some, Option.map_some, bare_alter (by simp)]
          | cons name' loc' =>
              by_cases hn : name' = name
              · subst hn
                by_cases hl : loc = []
                · exact absurd (by simp [hl]) hp
                · rw [alter_cons hl, at?_cons, at?_cons, child?_folder, child?_folder,
                    lookup_alterEntry_self h.sorted]
                  cases hc : entries.lookup name' with
                  | none => rfl
                  | some child =>
                      exact ih (h.lookup hc) fun hp' => hp (List.cons_prefix_cons.mpr ⟨rfl, hp'⟩)
              · have hlookup (g) : (alterEntry name g entries).lookup name' =
                    entries.lookup name' := lookup_alterEntry_of_ne hn
                by_cases hl : loc = []
                · rw [hl, alter_singleton, at?_cons, at?_cons, child?_folder, child?_folder, hlookup]
                · rw [alter_cons hl, at?_cons, at?_cons, child?_folder, child?_folder, hlookup]

theorem at?_alter_apart (h : root.WellFormed) (hp : ¬loc <+: loc') (hp' : ¬loc' <+: loc) :
    (alter f loc root).at? loc' = root.at? loc' := by
  induction loc generalizing root loc' with
  | nil => exact absurd List.nil_prefix hp
  | cons name loc ih =>
      cases root with
      | file content modified => rfl
      | link target => rfl
      | folder entries =>
          cases loc' with
          | nil => exact absurd List.nil_prefix hp'
          | cons name' loc' =>
              by_cases hn : name' = name
              · subst hn
                by_cases hl : loc = []
                · exact absurd (by simp [hl]) hp
                · rw [alter_cons hl, at?_cons, at?_cons, child?_folder, child?_folder,
                    lookup_alterEntry_self h.sorted]
                  cases hc : entries.lookup name' with
                  | none => rfl
                  | some child =>
                      exact ih (h.lookup hc) (fun hp₁ => hp (List.cons_prefix_cons.mpr ⟨rfl, hp₁⟩))
                        fun hp₁ => hp' (List.cons_prefix_cons.mpr ⟨rfl, hp₁⟩)
              · have hlookup (g) : (alterEntry name g entries).lookup name' =
                    entries.lookup name' := lookup_alterEntry_of_ne hn
                by_cases hl : loc = []
                · rw [hl, alter_singleton, at?_cons, at?_cons, child?_folder, child?_folder, hlookup]
                · rw [alter_cons hl, at?_cons, at?_cons, child?_folder, child?_folder, hlookup]

/-- What a change leaves in its place, if there is a folder for it. -/
theorem at?_alter_self (h : root.WellFormed) (hp : root.at? loc = some (.folder entries)) :
    (alter f (loc ++ [name]) root).at? (loc ++ [name]) = f (entries.lookup name) := by
  induction loc generalizing root with
  | nil =>
      cases hp
      rw [List.nil_append, alter_singleton, at?_cons, child?_folder,
        lookup_alterEntry_self h.sorted]
      cases f (entries.lookup name) <;> rfl
  | cons name' loc ih =>
      cases root with
      | file content modified => cases hp
      | link target => cases hp
      | folder entries' =>
          rw [List.cons_append, alter_cons (by simp), at?_cons, child?_folder,
            lookup_alterEntry_self h.sorted]
          rw [at?_cons, child?_folder] at hp
          cases hc : entries'.lookup name' with
          | none => simp [hc] at hp
          | some child =>
              rw [hc] at hp
              exact ih (h.lookup hc) hp

/-- Only what a change does to the node at its location matters. -/
theorem alter_congr (h : root.WellFormed) (hfg : f (root.at? loc) = g (root.at? loc)) :
    alter f loc root = alter g loc root := by
  induction loc generalizing root with
  | nil =>
      simp only [alter]
      rw [at?_nil] at hfg
      rw [hfg]
  | cons name loc ih =>
      cases root with
      | file content modified => rfl
      | link target => rfl
      | folder entries =>
          rw [at?_cons, child?_folder] at hfg
          by_cases hl : loc = []
          · subst hl
            rw [alter_singleton, alter_singleton]
            refine congrArg _ (alterEntry_congr h.sorted ?_)
            cases hc : entries.lookup name <;> simpa [hc] using hfg
          · rw [alter_cons hl, alter_cons hl]
            refine congrArg _ (alterEntry_congr h.sorted ?_)
            cases hc : entries.lookup name with
            | none => rfl
            | some child =>
                rw [hc] at hfg
                exact congrArg some (ih (h.lookup hc) hfg)

theorem alter_alter (h : root.WellFormed) (hl : loc ≠ []) :
    alter f loc (alter g loc root) = alter (fun node => f (g node)) loc root := by
  induction loc generalizing root with
  | nil => exact absurd rfl hl
  | cons name loc ih =>
      cases root with
      | file content modified => rfl
      | link target => rfl
      | folder entries =>
          by_cases hl' : loc = []
          · subst hl'
            rw [alter_singleton, alter_singleton, alter_singleton, alterEntry_alterEntry h.sorted]
          · rw [alter_cons hl', alter_cons hl', alter_cons hl', alterEntry_alterEntry h.sorted]
            refine congrArg _ (alterEntry_congr h.sorted ?_)
            cases hc : entries.lookup name with
            | none => rfl
            | some child => exact congrArg some (ih (h.lookup hc) hl')

theorem alter_id (h : root.WellFormed) (hf : f (root.at? loc) = root.at? loc) :
    alter f loc root = root := by
  induction loc generalizing root with
  | nil =>
      rw [at?_nil] at hf
      simp only [alter, hf, Option.getD_some]
  | cons name loc ih =>
      cases root with
      | file content modified => rfl
      | link target => rfl
      | folder entries =>
          rw [at?_cons, child?_folder] at hf
          by_cases hl : loc = []
          · subst hl
            rw [alter_singleton]
            refine congrArg _ (alterEntry_id h.sorted ?_)
            cases hc : entries.lookup name <;> simpa [hc] using hf
          · rw [alter_cons hl]
            refine congrArg _ (alterEntry_id h.sorted ?_)
            cases hc : entries.lookup name with
            | none => rfl
            | some child =>
                rw [hc] at hf
                exact congrArg some (ih (h.lookup hc) hf)

/-! ### Setting and removing -/

/-- The entries with one more, or with another node under a name. -/
def setEntry (name : String) (new : Node) (entries : List (String × Node)) :
    List (String × Node) := alterEntry name (fun _ => some new) entries

/-- The entries without the one of a name. -/
def eraseEntry (name : String) (entries : List (String × Node)) : List (String × Node) :=
  alterEntry name (fun _ => none) entries

theorem lookup_setEntry (h : Sorted entries) (key name : String) (new : Node) :
    (setEntry name new entries).lookup key =
      if key = name then some new else entries.lookup key := by
  split
  · rename_i hk
    rw [hk, setEntry, lookup_alterEntry_self h]
  · rename_i hk
    rw [setEntry, lookup_alterEntry_of_ne hk]

theorem lookup_eraseEntry (h : Sorted entries) (key name : String) :
    (eraseEntry name entries).lookup key = if key = name then none else entries.lookup key := by
  split
  · rename_i hk
    rw [hk, eraseEntry, lookup_alterEntry_self h]
  · rename_i hk
    rw [eraseEntry, lookup_alterEntry_of_ne hk]

theorem eraseEntry_of_lookup_eq_none (h : Sorted entries) (hn : entries.lookup name = none) :
    eraseEntry name entries = entries := alterEntry_id h hn.symm

theorem WellFormed.setEntry (h : WellFormed (.folder entries)) (hn : IsName name)
    (hnew : new.WellFormed) : WellFormed (.folder (setEntry name new entries)) := by
  refine h.alterEntry hn fun node hnode => ?_
  cases hnode
  exact hnew

theorem WellFormed.eraseEntry (h : WellFormed (.folder entries)) (name : String) :
    WellFormed (.folder (eraseEntry name entries)) := by
  cases hl : entries.lookup name with
  | none =>
      rw [eraseEntry_of_lookup_eq_none h.sorted hl]
      exact h
  | some node => exact h.alterEntry (h.isName hl) fun _ hnew => nomatch hnew

theorem eraseEntry_eq_filter (h : Sorted entries) :
    eraseEntry name entries = entries.filter (·.1 != name) := by
  induction entries with
  | nil => rfl
  | cons e rest ih =>
      obtain ⟨other, node⟩ := e
      rw [eraseEntry]
      rcases name_order name other with rfl | hlt | hlt
      · rw [alterEntry_self, List.filter_cons_of_neg (by simp)]
        exact (List.filter_eq_self.mpr fun e he => by
          simpa using fun heq : e.1 = name => String.lt_irrefl _ (heq ▸ h.head_lt e he)).symm
      · rw [alterEntry_before hlt]
        refine (List.filter_eq_self.mpr fun e he => ?_).symm
        rw [bne_iff_ne]
        rintro rfl
        rcases List.mem_cons.mp he with rfl | he
        · exact String.lt_irrefl _ hlt
        · exact String.lt_irrefl _ (String.lt_trans hlt (h.head_lt e he))
      · rw [alterEntry_after hlt, List.filter_cons_of_pos
          (by simpa using fun heq : other = name => String.lt_irrefl _ (heq ▸ hlt))]
        exact congrArg _ (ih h.tail)

theorem eraseEntry_setEntry (h : Sorted entries) (hn : entries.lookup name = none) (new : Node) :
    eraseEntry name (setEntry name new entries) = entries := by
  rw [eraseEntry, setEntry, alterEntry_alterEntry h]
  exact alterEntry_id h hn.symm

theorem eraseEntry_setEntry_self (h : Sorted entries) (new : Node) :
    eraseEntry name (setEntry name new entries) = eraseEntry name entries := by
  rw [eraseEntry, setEntry, alterEntry_alterEntry h, eraseEntry]

theorem lookup_filter (keep : String → Bool) (key : String) :
    (entries.filter (keep ·.1)).lookup key = if keep key then entries.lookup key else none := by
  induction entries with
  | nil => simp
  | cons e rest ih =>
      obtain ⟨name, node⟩ := e
      rw [List.filter_cons]
      by_cases hk : key = name
      · subst hk
        by_cases hkeep : keep key = true
        · rw [if_pos hkeep, if_pos hkeep, lookup_cons_eq, lookup_cons_eq]
        · rw [if_neg hkeep, ih, if_neg hkeep, if_neg hkeep]
      · rw [lookup_cons_ne hk, ← ih]
        split
        · rw [lookup_cons_ne hk]
        · rfl

theorem WellFormed.filter (h : WellFormed (.folder entries)) (keep : String × Node → Bool) :
    WellFormed (.folder (entries.filter keep)) := by
  have hsorted := h.sorted
  cases h with
  | folder _ _ names nodes =>
      exact .folder _ (List.Pairwise.filter _ hsorted)
        (fun e he => names e (List.filter_sublist.mem he))
        fun e he => nodes e (List.filter_sublist.mem he)

theorem WellFormed.put (h : root.WellFormed) (hn : ∀ name ∈ loc, IsName name)
    (hnew : new.WellFormed) : (put loc new root).WellFormed := by
  refine h.alter hn fun node hnode => ?_
  cases hnode
  exact hnew

/-- A new entry with a proper name keeps a tree well formed. -/
theorem WellFormed.put_child (h : root.WellFormed) (hp : root.at? loc = some (.folder entries))
    (hn : IsName name) (hnew : new.WellFormed) : (Node.put (loc ++ [name]) new root).WellFormed := by
  refine h.put (fun n hmem => ?_) hnew
  rcases List.mem_append.mp hmem with hmem | hmem
  · exact h.isName_of_mem hp hmem
  · rw [List.mem_singleton.mp hmem]
    exact hn

theorem WellFormed.remove (h : root.WellFormed) (loc : Location) :
    (root.remove loc).WellFormed := by
  cases hl : root.at? loc with
  | none =>
      rw [Node.remove, alter_id h hl.symm]
      exact h
  | some node => exact h.alter (fun _ => h.isName_of_mem hl) fun _ hnew => nomatch hnew

theorem at?_alter_of_some (h : root.WellFormed) (hl : loc ≠ []) (hn : root.at? loc = some node) :
    (alter f loc root).at? loc = f (some node) := by
  obtain ⟨init, name, rfl⟩ := List.eq_nil_or_concat loc |>.resolve_left hl
  rw [List.concat_eq_append] at hn ⊢
  obtain ⟨entries, he⟩ := exists_folder_of_at?_append hn
  rw [at?_alter_self h he, ← at?_folder_child he, hn]

theorem at?_put_of_some (h : root.WellFormed) (hn : root.at? loc = some node) :
    (put loc new root).at? loc = some new := by
  by_cases hl : loc = []
  · subst hl
    rfl
  · exact at?_alter_of_some h hl hn

theorem at?_put_self (h : root.WellFormed) (hp : root.at? loc = some (.folder entries)) :
    (put (loc ++ [name]) new root).at? (loc ++ [name]) = some new :=
  at?_alter_self h hp

theorem at?_remove_self (h : root.WellFormed) (hl : loc ≠ []) : (root.remove loc).at? loc = none := by
  cases hn : root.at? loc with
  | none => rw [remove, alter_id h hn.symm, hn]
  | some node => exact at?_alter_of_some h hl hn

theorem put_at? (h : root.WellFormed) (hn : root.at? loc = some node) : put loc node root = root :=
  alter_id h hn.symm

theorem put_put (h : root.WellFormed) : put loc new (put loc node root) = put loc new root := by
  by_cases hl : loc = []
  · subst hl
    rfl
  · exact alter_alter h hl

/-- A change below a node is a change of that node. -/
theorem alter_append_of_at? (h : root.WellFormed) (hn : root.at? loc = some node)
    (ht : tail ≠ []) : alter f (loc ++ tail) root = put loc (alter f tail node) root := by
  by_cases hl : loc = []
  · subst hl
    cases hn
    rfl
  · rw [alter_append hl ht, put]
    exact alter_congr h (by rw [hn, Option.map_some])

theorem put_child (h : root.WellFormed) (hn : root.at? loc = some (.folder entries)) :
    put (loc ++ [name]) new root = put loc (.folder (setEntry name new entries)) root :=
  alter_append_of_at? h hn (by simp)

theorem remove_child (h : root.WellFormed) (hn : root.at? loc = some (.folder entries)) :
    root.remove (loc ++ [name]) = put loc (.folder (eraseEntry name entries)) root :=
  alter_append_of_at? h hn (by simp)

/-- What was done to a node does not matter once it is removed. -/
theorem remove_put (h : root.WellFormed) (hl : loc ≠ []) :
    (put loc new root).remove loc = root.remove loc := alter_alter h hl

/-- Once a node is removed it does not matter what was removed from it before. -/
theorem remove_remove_append (h : root.WellFormed) (hl : loc ≠ []) (tail : Location) :
    (root.remove (loc ++ tail)).remove loc = root.remove loc := by
  by_cases ht : tail = []
  · rw [ht, List.append_nil]
    exact alter_alter h hl
  · rw [remove, remove, alter_append hl ht, alter_alter h hl]
    rfl

theorem remove_put_of_none (h : root.WellFormed) (hl : loc ≠ []) (hn : root.at? loc = none) :
    (put loc new root).remove loc = root := by
  rw [remove_put h hl]
  exact alter_id h hn.symm

end ScriptPack.Node

import ScriptPack.Cache.Records

/-!
Records as a map from signatures to entries. What a map holds and the order of its keys determine
all that can be asked of it; setting and erasing records do to them what the same change does to a
plain map.
-/

namespace ScriptPack

/-- A map that keeps its keys in the order in which they first came in. -/
@[ext]
structure OrderedMap where
  keys : List String
  value : String → Option Entry

namespace OrderedMap

def set (map : OrderedMap) (entry : Entry) : OrderedMap where
  keys :=
    if entry.signature ∈ map.keys then map.keys else map.keys ++ [entry.signature]
  value key := if key = entry.signature then some entry else map.value key

def without (map : OrderedMap) (signatures : List String) : OrderedMap where
  keys := map.keys.filter (· ∉ signatures)
  value key := if key ∈ signatures then none else map.value key

def empty : OrderedMap := ⟨[], fun _ => none⟩

end OrderedMap

namespace Records

variable {records : Records} {entry first : Entry} {signature : String}

/-- The map that records stand for. -/
def view (records : Records) : OrderedMap := ⟨records.map (·.signature), records.get?⟩

theorem contains_iff : records.contains signature = true ↔ signature ∈ records.map (·.signature) := by
  simp [contains]

theorem get?_cons (entry : Entry) (rest : Records) (key : String) :
    get? (entry :: rest) key = if entry.signature = key then some entry else rest.get? key := by
  rw [get?, List.find?_cons]
  by_cases h : entry.signature = key
  · simp [h]
  · rw [beq_false_of_ne h, if_neg h]
    rfl

theorem get?_eq_none (h : signature ∉ records.map (·.signature)) : records.get? signature = none := by
  rw [get?, List.find?_eq_none]
  intro entry hmem heq
  rw [beq_iff_eq] at heq
  exact h (heq ▸ List.mem_map_of_mem hmem)

theorem get?_append (records rest : Records) (key : String) :
    get? (records ++ rest) key = (records.get? key).or (rest.get? key) := by
  simp only [get?, List.find?_append]

/-- The records with one in place of those of the same signature. -/
def replace (records : Records) (entry : Entry) : Records :=
  records.map fun known => if known.signature == entry.signature then entry else known

theorem replace_cons_eq (h : first.signature = entry.signature) (rest : Records) :
    replace (first :: rest) entry = entry :: replace rest entry := by
  simp [replace, h]

theorem replace_cons_ne (h : first.signature ≠ entry.signature) (rest : Records) :
    replace (first :: rest) entry = first :: replace rest entry := by
  simp [replace, h]

theorem replace_of_not_mem (h : entry.signature ∉ records.map (·.signature)) :
    replace records entry = records := by
  induction records with
  | nil => rfl
  | cons first rest ih =>
      rw [List.map_cons, List.mem_cons, not_or] at h
      rw [replace_cons_ne (Ne.symm h.1), ih h.2]

theorem signatures_replace (records : Records) (entry : Entry) :
    (replace records entry).map (·.signature) = records.map (·.signature) := by
  induction records with
  | nil => rfl
  | cons first rest ih =>
      by_cases h : first.signature = entry.signature
      · rw [replace_cons_eq h, List.map_cons, List.map_cons, ih, h]
      · rw [replace_cons_ne h, List.map_cons, List.map_cons, ih]

theorem get?_replace (records : Records) (entry : Entry) (key : String)
    (hc : entry.signature ∈ records.map (·.signature)) :
    get? (replace records entry) key =
      if key = entry.signature then some entry else records.get? key := by
  induction records with
  | nil => cases hc
  | cons first rest ih =>
      by_cases hf : first.signature = entry.signature
      · rw [replace_cons_eq hf, get?_cons, get?_cons, hf]
        by_cases hk : entry.signature = key
        · rw [if_pos hk, if_pos hk.symm]
        · rw [if_neg hk, if_neg (Ne.symm hk), if_neg hk]
          by_cases hmem : entry.signature ∈ rest.map (·.signature)
          · rw [ih hmem, if_neg (Ne.symm hk)]
          · rw [replace_of_not_mem hmem]
      · have hmem : entry.signature ∈ rest.map (·.signature) :=
          (List.mem_cons.mp hc).resolve_left (Ne.symm hf)
        rw [replace_cons_ne hf, get?_cons, get?_cons, ih hmem]
        by_cases hk : first.signature = key
        · rw [if_pos hk, if_pos hk, if_neg (hk ▸ hf)]
        · rw [if_neg hk, if_neg hk]

theorem set_of_mem (h : entry.signature ∈ records.map (·.signature)) :
    records.set entry = replace records entry := by
  rw [set, if_pos (contains_iff.mpr h), replace]

theorem set_of_not_mem (h : entry.signature ∉ records.map (·.signature)) :
    records.set entry = records ++ [entry] := by
  rw [set, if_neg fun hc => h (contains_iff.mp hc)]

theorem view_set (records : Records) (entry : Entry) :
    (records.set entry).view = records.view.set entry := by
  by_cases hmem : entry.signature ∈ records.map (·.signature)
  · rw [set_of_mem hmem]
    refine OrderedMap.ext ?_ (funext fun key => get?_replace records entry key hmem)
    exact (signatures_replace records entry).trans (if_pos hmem).symm
  · rw [set_of_not_mem hmem]
    refine OrderedMap.ext ?_ (funext fun key => ?_)
    · exact (List.map_append).trans (if_neg hmem).symm
    · change get? (records ++ [entry]) key =
        if key = entry.signature then some entry else records.get? key
      rw [get?_append, get?_cons]
      by_cases hk : key = entry.signature
      · subst hk
        rw [get?_eq_none hmem, if_pos rfl, if_pos rfl]
        rfl
      · rw [if_neg (Ne.symm hk), if_neg hk]
        cases records.get? key <;> rfl

theorem view_erase (records : Records) (signatures : List String) :
    (records.erase signatures).view = records.view.without signatures := by
  refine OrderedMap.ext ?_ (funext fun key => ?_)
  · simp only [view, OrderedMap.without, erase, List.filter_map]
    refine congrArg _ (List.filter_congr fun entry _ => ?_)
    simp
  · change get? (records.erase signatures) key =
      if key ∈ signatures then none else records.get? key
    induction records with
    | nil => simp [erase, get?]
    | cons first rest ih =>
        rw [get?_cons]
        by_cases hs : first.signature ∈ signatures
        · have herase : erase (first :: rest) signatures = erase rest signatures := by
            simp [erase, hs]
          rw [herase, ih]
          by_cases hk : first.signature = key
          · rw [if_pos (hk ▸ hs), if_pos (hk ▸ hs)]
          · rw [if_neg hk]
        · have herase : erase (first :: rest) signatures = first :: erase rest signatures := by
            simp [erase, hs]
          rw [herase, get?_cons, ih]
          by_cases hk : first.signature = key
          · rw [if_pos hk, if_pos hk, if_neg (hk ▸ hs)]
          · rw [if_neg hk, if_neg hk]

end Records

end ScriptPack

import ScriptPack.Proofs.Json.KeyOrder

/-!
The fields of objects. However keys are set, and whatever text an object is read from, its keys are
distinct, and they are in the order of keys.
-/

namespace ScriptPack

namespace Fields

open Json

variable {α : Type} {fields : Fields α}

/-- The fields of an object: their keys are distinct, and in order. -/
structure Arranged (fields : Fields α) : Prop where
  distinct : (fields.map (·.1)).Nodup
  ordered : fields.Pairwise fun a b => MayPrecede a.1 b.1

theorem Arranged.nil : Arranged ([] : Fields α) := ⟨List.nodup_nil, .nil⟩

/-- Only the keys matter. -/
theorem Arranged.congr {fields' : Fields α} (h : Arranged fields)
    (hk : fields'.map (·.1) = fields.map (·.1)) : Arranged fields' := by
  have hordered : (fields'.map (·.1)).Pairwise MayPrecede := by
    rw [hk]
    exact List.pairwise_map.mpr h.ordered
  exact ⟨hk.symm ▸ h.distinct, List.pairwise_map.mp hordered⟩

/-- A key that is set again keeps its place. -/
theorem keys_set {key : String} (h : key ∈ fields.map (·.1)) (value : α) :
    (fields.set key value).map (·.1) = fields.map (·.1) := by
  obtain ⟨field, hf, rfl⟩ := List.mem_map.mp h
  have hcontains : fields.contains field.1 = true := List.any_eq_true.mpr ⟨field, hf, by simp⟩
  rw [Fields.set, if_pos hcontains, List.map_map]
  refine List.map_congr_left fun other _ => ?_
  cases other
  simp only [Function.comp_apply]
  split <;> rfl

theorem Arranged.set (h : Arranged fields) (key : String) (value : α) :
    Arranged (fields.set key value) := by
  by_cases hm : key ∈ fields.map (·.1)
  · exact h.congr (keys_set hm value)
  · have hnodup : ((fields ++ [(key, value)]).map (·.1)).Nodup := by
      rw [List.map_append, List.map_singleton]
      exact h.distinct.append (List.nodup_singleton key) (List.disjoint_singleton.mpr hm)
    have hset := set_inKeyOrder hnodup
    rw [inKeyOrder_of_pairwise h.ordered] at hset
    rw [show fields.set key value = _ from hset]
    exact ⟨((inKeyOrder_perm _ _).map _).nodup_iff.mpr hnodup, pairwise_inKeyOrder _ _⟩

end Fields

namespace Json

variable {fuel : Nat} {found fields : Fields Json} {text rest : List Char}

theorem arranged_fields? (hf : found.Arranged) (h : fields? fuel found text = some (fields, rest)) :
    fields.Arranged := by
  induction fuel generalizing found text with
  | zero => cases h
  | succ fuel ih =>
      rw [fields?] at h
      split at h
      · split at h
        · cases h
        · split at h
          · split at h
            · cases h
            · split at h
              · exact ih (hf.set _ _) h
              · cases h
                exact hf.set _ _
              · cases h
          · cases h
      · cases h

theorem arranged_value? (h : value? fuel text = some (.object fields, rest)) : fields.Arranged := by
  cases fuel with
  | zero => cases h
  | succ fuel =>
      rw [value?] at h
      split at h
      · cases h
      -- Only what begins like an object is one.
      · split at h
        · obtain ⟨_, -, heq⟩ := Option.map_eq_some_iff.mp h
          cases heq
        · split at h
          · split at h
            · cases h
            · obtain ⟨_, -, heq⟩ := Option.map_eq_some_iff.mp h
              cases heq
          · split at h
            · split at h
              · cases h
                exact .nil
              · obtain ⟨_, hf, heq⟩ := Option.map_eq_some_iff.mp h
                cases heq
                exact arranged_fields? .nil hf
            · split at h
              · cases h
              · split at h
                · cases h
                · split at h
                  · cases h
                  · obtain ⟨_, -, heq⟩ := Option.map_eq_some_iff.mp h
                    cases heq

/-- An object that is read has its fields in order. -/
theorem arranged_parse? {text : String} (h : parse? text = some (.object fields)) :
    fields.Arranged := by
  rw [parse?] at h
  split at h
  · split at h
    · cases h
      exact arranged_value? ‹_›
    · cases h
  · cases h

end Json

end ScriptPack

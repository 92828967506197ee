import ScriptPack.Cache.Keep
import ScriptPack.Proofs.Cache.Document
import ScriptPack.Proofs.Cache.Signature
import ScriptPack.Proofs.Number.Text

/-!
The names that a cache gives out. They are entries of its folder and are told apart from the
document, from drafts of it, and from partial copies.
-/

namespace ScriptPack

open Node

namespace Cache

/-- A name of the form that a cache gives to an artifact. -/
structure IsId (id : String) : Prop where
  head : id.toList.head? = some 'b'
  plain : ∀ c ∈ id.toList, c ≠ '/' ∧ c ≠ '\x00' ∧ c ≠ 'p'

variable {id other signature name : String}

theorem isId_baseId (h : Signature.IsDigest signature) (now : Number) :
    IsId (baseId signature now) := by
  have htext : ∀ c, Number.IsTextChar c → c ≠ '/' ∧ c ≠ '\x00' ∧ c ≠ 'p' := by
    rintro c hc
    refine ⟨?_, ?_, ?_⟩ <;> rintro rfl <;> revert hc <;> decide
  have hdigest : ∀ c ∈ signature.toList, c ≠ '/' ∧ c ≠ '\x00' ∧ c ≠ 'p' := by
    intro c hc
    have hc := h.digits c hc
    refine ⟨?_, ?_, ?_⟩ <;> rintro rfl <;> revert hc <;> decide
  have hstart : ∀ c ∈ "build_".toList, c ≠ '/' ∧ c ≠ '\x00' ∧ c ≠ 'p' :=
    List.all_iff_forall_prop.mp (by decide)
  refine ⟨by simp [baseId], fun c hc => ?_⟩
  simp only [baseId, String.toList_append, List.mem_append, String.toList_ofList] at hc
  rcases hc with ((hc | hc) | hc) | hc
  · exact hstart c hc
  · exact hdigest c (List.mem_of_mem_take hc)
  · rw [List.mem_singleton.mp hc]
    decide
  · exact htext c (Number.isTextChar_of_mem_text hc)

theorem IsId.numbered (h : IsId id) (n : Nat) : IsId (numberedId id n) := by
  rw [numberedId]
  split
  · exact h
  · have hdigit : ∀ c : Char, c.isDigit = true → c ≠ '/' ∧ c ≠ '\x00' ∧ c ≠ 'p' := by
      intro c hc
      refine ⟨?_, ?_, ?_⟩ <;> rintro rfl <;> exact absurd hc (by decide)
    refine ⟨?_, fun c hc => ?_⟩
    · simp only [String.toList_append, List.append_assoc, List.head?_append, h.head]
      rfl
    · rw [Nat.toString_eq_ofList_toDigits] at hc
      simp only [String.toList_append, List.mem_append, String.toList_ofList] at hc
      rcases hc with (hc | hc) | hc
      · exact h.plain c hc
      · rw [List.mem_singleton.mp hc]
        decide
      · exact hdigit c (Nat.isDigit_of_mem_toDigits (by decide) (by decide) hc)

theorem numberedId_injective (base : String) : Function.Injective (numberedId base) := by
  intro m n h
  have hlist := congrArg String.toList h
  simp only [numberedId] at hlist
  split at hlist
  · split at hlist
    · omega
    · simp at hlist
  · split at hlist
    · simp at hlist
    · simp only [Nat.toString_eq_ofList_toDigits, String.toList_append, String.toList_ofList,
        List.append_cancel_left_eq] at hlist
      have hvalue := congrArg (Nat.ofDigitChars 10 · 0) hlist
      simpa only [Nat.ofDigitChars_ten_toDigits] using hvalue

/-! ### Names that are told apart -/

theorem isName_of_head {c : Char} (hh : name.toList.head? = some c) (hdot : c ≠ '.')
    (hp : '/' ∉ name.toList ∧ '\x00' ∉ name.toList) : IsName name := by
  refine ⟨?_, ?_, ?_, hp.1, hp.2⟩
  · rintro rfl
    cases hh
  · rintro rfl
    exact hdot (by simpa using hh.symm)
  · rintro rfl
    exact hdot (by simpa using hh.symm)

theorem startsWith_of_head {c d : Char} {start : String} (hh : name.toList.head? = some c)
    (hd : start.toList.head? = some d) (hne : c ≠ d) : Text.startsWith name start = false := by
  rw [Text.startsWith, Bool.eq_false_iff, ne_eq, List.isPrefixOf_iff_prefix]
  rintro ⟨rest, hrest⟩
  rw [← hrest, List.head?_append, hd] at hh
  exact hne (by simpa using hh.symm)

theorem isDocumentName_of_head {c : Char} (hh : name.toList.head? = some c) (hc : c ≠ 'c') :
    isDocumentName name = false := by
  rw [isDocumentName, Bool.or_eq_false_iff]
  constructor
  · rw [beq_eq_false_iff_ne]
    rintro rfl
    exact hc (Option.some.inj (hh.symm.trans (by decide)))
  · exact startsWith_of_head hh (by decide) hc

/-- The name of a partial copy. -/
def partialName (id : String) : String := id ++ ".partial"

theorem head?_partialName (h : IsId id) : (partialName id).toList.head? = some 'b' := by
  rw [partialName, String.toList_append, List.head?_append, h.head]
  rfl

theorem IsId.isName (h : IsId id) : IsName id :=
  isName_of_head h.head (by decide)
    ⟨fun hc => (h.plain _ hc).1 rfl, fun hc => (h.plain _ hc).2.1 rfl⟩

theorem IsId.isName_partial (h : IsId id) : IsName (partialName id) := by
  have htail : '/' ∉ ".partial".toList ∧ '\x00' ∉ ".partial".toList := by decide
  refine isName_of_head (head?_partialName h) (by decide) ⟨fun hc => ?_, fun hc => ?_⟩
  · rw [partialName, String.toList_append, List.mem_append] at hc
    exact hc.elim (fun hc => (h.plain _ hc).1 rfl) htail.1
  · rw [partialName, String.toList_append, List.mem_append] at hc
    exact hc.elim (fun hc => (h.plain _ hc).2.1 rfl) htail.2

theorem IsId.not_document (h : IsId id) : isDocumentName id = false :=
  isDocumentName_of_head h.head (by decide)

theorem IsId.partial_not_document (h : IsId id) : isDocumentName (partialName id) = false :=
  isDocumentName_of_head (head?_partialName h) (by decide)

theorem IsId.startsWith_documentName (h : IsId id) : Text.startsWith id documentName = false :=
  startsWith_of_head h.head (show documentName.toList.head? = some 'c' by decide) (by decide)

/-- No artifact has the name of a partial copy. -/
theorem IsId.ne_partial (h : IsId id) (other : String) : id ≠ partialName other := by
  rintro rfl
  refine (h.plain 'p' ?_).2.2 rfl
  rw [partialName, String.toList_append]
  exact List.mem_append_right _ (by decide)

theorem partialName_injective : Function.Injective partialName := fun id other h => by
  rw [partialName, partialName, ← String.toList_inj, String.toList_append, String.toList_append] at h
  exact String.toList_inj.mp (List.append_cancel_right h)

theorem ne_documentName (h : isDocumentName name = false) : name ≠ documentName := by
  rintro rfl
  exact absurd h (by decide)

theorem isDocumentName_draftName (processId : String) :
    isDocumentName (draftName processId) = true := by
  rw [isDocumentName, Bool.or_eq_true]
  right
  rw [Text.startsWith, List.isPrefixOf_iff_prefix, draftName]
  refine ⟨processId.toList ++ ".tmp".toList, ?_⟩
  simp only [String.toList_append, List.append_assoc]

theorem ne_draftName (h : isDocumentName name = false) (processId : String) :
    name ≠ draftName processId := by
  rintro rfl
  cases h.symm.trans (isDocumentName_draftName processId)

theorem artifactPath_eq {dir : String} (hd : Path.IsNormal dir) (h : Path.IsStep id) :
    artifactPath dir id = dir ++ "/" ++ id := hd.join_child h

theorem partialPath_eq {dir : String} (hd : Path.IsNormal dir) (h : Path.IsStep id) :
    partialPath (artifactPath dir id) = dir ++ "/" ++ partialName id := by
  rw [artifactPath_eq hd h, partialPath, partialName, String.append_assoc]

theorem documentPath_eq {dir : String} (hd : Path.IsNormal dir) :
    documentPath dir = dir ++ "/" ++ documentName := hd.join_child isStep_documentName

theorem draftPath_eq {dir : String} (hd : Path.IsNormal dir) (processId : String) :
    draftPath dir processId = dir ++ "/" ++ draftName processId := by
  rw [draftPath, documentPath_eq hd, draftName]
  simp only [String.append_assoc]

end Cache

end ScriptPack

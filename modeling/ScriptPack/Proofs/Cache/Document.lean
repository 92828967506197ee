import ScriptPack.Cache.Store
import ScriptPack.Proofs.FileSystem.MakeFolders

/-!
Where the document of a cache folder and its draft are. Both paths lead through the same folder, by
different names, so that what is written to the one is not seen in the other.
-/

namespace ScriptPack

open Effect Node Lookup

namespace Cache

theorem isStep_documentName : Path.IsStep documentName := by
  refine ⟨by decide, by decide, by decide, by decide⟩

theorem isName_documentName : IsName documentName := by decide

/-- The last name of the path of a draft. -/
def draftName (processId : String) : String := documentName ++ "." ++ processId ++ ".tmp"

/-- The number of a process as text. -/
def IsProcessId (id : String) : Prop := ∀ c ∈ id.toList, c.isDigit = true

theorem isName_draftName {id : String} (h : IsProcessId id) : IsName (draftName id) := by
  have hmem : ∀ c ∈ (draftName id).toList, c ∈ documentName.toList ∨ c = '.' ∨ c.isDigit = true ∨
      c ∈ ".tmp".toList := by
    intro c hc
    simp only [draftName, String.toList_append, List.mem_append] at hc
    rcases hc with ((hc | hc) | hc) | hc
    · exact .inl hc
    · exact .inr (.inl (List.mem_singleton.mp hc))
    · exact .inr (.inr (.inl (h c hc)))
    · exact .inr (.inr (.inr hc))
  have hlen : (draftName id).toList.length ≠ 0 ∧ 2 < (draftName id).toList.length := by
    have hdoc : documentName.toList.length = 19 := by decide
    simp only [draftName, String.toList_append, List.length_append, hdoc]
    omega
  refine ⟨?_, ?_, ?_, fun hc => ?_, fun hc => ?_⟩
  · intro heq
    rw [heq] at hlen
    exact absurd hlen.2 (by decide)
  · intro heq
    rw [heq] at hlen
    exact absurd hlen.2 (by decide)
  · intro heq
    rw [heq] at hlen
    exact absurd hlen.2 (by decide)
  · have hd := hmem _ hc
    revert hd
    decide
  · have hd := hmem _ hc
    revert hd
    decide

theorem draftName_ne (id : String) : draftName id ≠ documentName := by
  intro heq
  have hlen := congrArg (fun s => s.toList.length) heq
  simp only [draftName, String.toList_append, List.length_append] at hlen
  have htmp : ".tmp".toList.length = 4 := by decide
  omega

end Cache

namespace Store

variable {w : World} {root : String}

/-- The folder of the document of a root, as the path of the document is written. -/
def home (w : World) (root : String) : String :=
  Path.under (if Path.isAbsolute root then "" else w.workingDirectory)
    (Path.normalNames (Path.isAbsolute root) (Path.names root))

theorem home_congr {w' : World} (h : w'.workingDirectory = w.workingDirectory) (root : String) :
    home w' root = home w root := by
  rw [home, home, h]

/-- A name that is joined to a path is looked for in the folder of that path. -/
theorem absolute_join {name : String} (hn : Path.IsStep name) (w : World) (root suffix : String) :
    absolute w (Path.join [root, name] ++ suffix) = home w root ++ "/" ++ (name ++ suffix) := by
  by_cases hroot : root = ""
  · subst hroot
    have habs : Path.isAbsolute (name ++ suffix) = false := by
      rw [Path.isAbsolute_append_of_ne hn.1, Path.isAbsolute_step hn]
    rw [Path.join_empty hn, absolute, habs]
    simp [hn.1, home, show Path.isAbsolute "" = false from rfl,
      show Path.names "" = [] from rfl, Path.normalNames, Path.under]
  · rw [home, ← String.append_assoc, ← Path.under_concat, Path.under_eq _ (by simp),
      Path.join_name hroot hn]
    have hmem := fun n (hn : n ∈ Path.normalNames (Path.isAbsolute root) (Path.names root)) =>
      Path.mem_normalNames_names _ hn
    generalize Path.normalNames (Path.isAbsolute root) (Path.names root) = kept at hmem ⊢
    have hglue := Path.glue_ne_empty kept hn.1
    cases habs : Path.isAbsolute root with
    | true =>
        rw [absolute_of_isAbsolute]
        · simp
        · simp only [if_true, String.append_assoc]
          exact Path.isAbsolute_append (show Path.isAbsolute "/" = true from rfl) _
    | false =>
        have hrel : Path.isAbsolute (Path.glue (kept ++ [name])) = false := by
          refine Path.isAbsolute_glue fun n hm => ?_
          rcases List.mem_append.mp hm with hm | hm
          · exact hmem n hm
          · rw [List.mem_singleton.mp hm]
            exact ⟨hn.1, hn.2.2.2⟩
        simp only [Bool.false_eq_true, if_false, String.empty_append]
        rw [absolute_of_relative]
        · simp only [String.append_assoc]
        · simp [hglue]
        · rw [Path.isAbsolute_append_of_ne hglue, hrel]

theorem absolute_documentPath (w : World) (root suffix : String) :
    absolute w (Cache.documentPath root ++ suffix) =
      home w root ++ "/" ++ (Cache.documentName ++ suffix) :=
  absolute_join Cache.isStep_documentName w root suffix

theorem not_mem_home {c : Char} (hslash : c ≠ '/') (hdot : c ≠ '.')
    (hw : c ∉ w.workingDirectory.toList) (hr : c ∉ root.toList) : c ∉ (home w root).toList := by
  intro hc
  rcases Path.mem_under hc with h | h | ⟨name, hn, h⟩
  · split at h
    · cases h
    · exact hw h
  · exact hslash h
  · rcases Path.mem_of_mem_normalNames hn with hn | rfl
    · exact hr (Path.mem_of_mem_names hn h)
    · have hdots : c ∈ ['.', '.'] := h
      simp [hdot] at hdots

/-- Without steps up, the written path of a root leads where the path of its document does. -/
theorem undots_home (hne : root ≠ "") (hup : ".." ∉ Path.names (absolute w root)) :
    Path.Undots (Path.names (absolute w root)) (Path.names (home w root)) := by
  have hplain := fun n (hn : n ∈ Path.normalNames (Path.isAbsolute root) (Path.names root)) =>
    Path.mem_normalNames_names _ hn
  rw [home, Path.names_under hplain]
  cases habs : Path.isAbsolute root with
  | true =>
      rw [absolute_of_isAbsolute habs] at hup ⊢
      exact Path.undots_normalNames true (fun n => Path.mem_names) hup
  | false =>
      rw [absolute_of_relative hne habs, Path.names_append_slash] at hup ⊢
      rw [List.mem_append, not_or] at hup
      exact (Path.undots_normalNames false (fun n => Path.mem_names) hup.2).append_left _

end Store

end ScriptPack

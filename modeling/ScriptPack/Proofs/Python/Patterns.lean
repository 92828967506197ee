import ScriptPack.Proofs.Path
import ScriptPack.Proofs.Python.Statements

/-!
What the line patterns find in a plain import file: the same modules in the same lines as there are in
its syntax tree.
-/

namespace ScriptPack.Python

namespace LinePatterns

open ImportFile
open Text (isBlank dropBlanks trim parts after? isName isNameStart isNamePart)

variable {p : Char → Bool} {text rest name front back : List Char} {c : Char} {number : Nat}

/-! ### Texts -/

theorem dropWhile_append (hall : ∀ c ∈ text, p c = true) (hrest : Ahead (p · = false) rest) :
    (text ++ rest).dropWhile p = rest := by
  rw [List.dropWhile_append_of_pos hall]
  cases rest with
  | nil => rfl
  | cons c rest => exact List.dropWhile_cons_of_neg (by rw [show p c = false from hrest]; decide)

/-- A text that neither begins nor ends with a blank. -/
structure IsTrim (text : List Char) : Prop where
  front : ∀ rest, Ahead (isBlank · = false) (text ++ rest)
  back : ∀ rest, Ahead (isBlank · = false) (text.reverse ++ rest)

theorem IsTrim.append (h : IsTrim text) (h' : IsTrim rest) (between : List Char) :
    IsTrim (text ++ between ++ rest) := by
  refine ⟨fun more => ?_, fun more => ?_⟩
  · rw [List.append_assoc, List.append_assoc]
    exact h.front _
  · rw [List.reverse_append, List.append_assoc]
    exact h'.back _

end LinePatterns

end ScriptPack.Python

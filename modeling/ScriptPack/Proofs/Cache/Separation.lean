import ScriptPack.Proofs.Cache.Chunks
import ScriptPack.Proofs.Cache.Commit
import ScriptPack.Proofs.Cache.Signature
import ScriptPack.Proofs.Number.Text
import ScriptPack.Proofs.Json.Number
import ScriptPack.Proofs.Text.Utf8

/-!
What a signature tells apart. The text that is hashed has the digest of the script, its time of
modification and the arguments, with colons between them. Neither a digest nor a number has a colon
in it, so that the parts can be read off the text, whatever the arguments are.
-/

namespace ScriptPack

open Effect

/-- Texts are equal only if what is in front of the first colon and what is behind it are equal. -/
theorem Text.split_colon {before before' after after' : List Char} (hb : ':' ∉ before)
    (hb' : ':' ∉ before') (h : before ++ ':' :: after = before' ++ ':' :: after') :
    before = before' ∧ after = after' := by
  induction before generalizing before' with
  | nil =>
      cases before' with
      | nil => exact ⟨rfl, (List.cons.inj h).2⟩
      | cons c rest => exact absurd ((List.cons.inj h).1 ▸ List.mem_cons_self) hb'
  | cons c rest ih =>
      cases before' with
      | nil => exact absurd ((List.cons.inj h).1 ▸ List.mem_cons_self) hb
      | cons c' rest' =>
          obtain ⟨rfl, htail⟩ := List.cons.inj h
          obtain ⟨rfl, hafter⟩ := ih (fun hc => hb (List.mem_cons_of_mem _ hc))
            (fun hc => hb' (List.mem_cons_of_mem _ hc)) htail
          exact ⟨rfl, hafter⟩

theorem Bytes.ofText_injective : Function.Injective Bytes.ofText := fun text text' h => by
  have hdecode := congrArg Text.Utf8.decode h
  rw [ofText, ofText, Text.Utf8.decode_encode, Text.Utf8.decode_encode] at hdecode
  exact String.toList_inj.mp hdecode

namespace Signature

/-! ### The digest of a script -/

theorem colon_not_mem_digestOf (content : Bytes) : ':' ∉ (digestOf content).toList := fun h =>
  absurd ((isDigest_digest _).digits ':' h) (by decide)

/-! ### The parts of the text -/

theorem toList_text (digest : String) (modified : Stamp) (invocation : String) :
    (text digest modified invocation).toList = digest.toList ++
      ':' :: ((modified.milliseconds / 1000).text.toList ++ ':' :: invocation.toList) := by
  simp [text]

/-- The parts of a text with colons between them, of which the first two have no colon. -/
theorem parts_inj {digest digest' invocation invocation' : String} {modified modified' : Number}
    (hd : ':' ∉ digest.toList) (hd' : ':' ∉ digest'.toList) (hm : modified.IsRounded)
    (hm' : modified'.IsRounded)
    (h : digest.toList ++ ':' :: (modified.text.toList ++ ':' :: invocation.toList) =
      digest'.toList ++ ':' :: (modified'.text.toList ++ ':' :: invocation'.toList)) :
    digest = digest' ∧ modified = modified' ∧ invocation = invocation' := by
  have hcolon (n : Number) : ':' ∉ n.text.toList := fun hc =>
    absurd (Number.isTextChar_of_mem_text hc) (by decide)
  obtain ⟨hdigest, hrest⟩ := Text.split_colon hd hd' h
  obtain ⟨hmodified, hinvocation⟩ := Text.split_colon (hcolon _) (hcolon _) hrest
  exact ⟨String.toList_inj.mp hdigest,
    Number.text_injective hm hm' (String.toList_inj.mp hmodified),
    String.toList_inj.mp hinvocation⟩

theorem text_inj (content content' : Bytes) (modified modified' : Stamp)
    (invocation invocation' : String) :
    text (digestOf content) modified invocation = text (digestOf content') modified' invocation' ↔
      digestOf content = digestOf content' ∧
        modified.milliseconds / 1000 = modified'.milliseconds / 1000 ∧
        invocation = invocation' := by
  constructor
  · intro h
    have hlist := congrArg String.toList h
    rw [toList_text, toList_text] at hlist
    exact parts_inj (colon_not_mem_digestOf content) (colon_not_mem_digestOf content')
      (Number.isRounded_div _ _) (Number.isRounded_div _ _) hlist
  · rintro ⟨hdigest, hmodified, rfl⟩
    rw [text, text, hdigest, hmodified]

end Signature

/-- No two of the inputs that are different have the same digest. -/
def Sha256.Separates (inputs : List Bytes) : Prop :=
  ∀ a ∈ inputs, ∀ b ∈ inputs, sha256 a = sha256 b → a = b

instance (inputs : List Bytes) : Decidable (Sha256.Separates inputs) :=
  inferInstanceAs (Decidable (∀ a ∈ inputs, ∀ b ∈ inputs, sha256 a = sha256 b → a = b))

namespace Files

open Signature

/-- Signatures tell apart what they are made of. The texts that are hashed are the same only if the
digests of the scripts, their times of modification and the arguments are; and so are the signatures
if no two of the hashed inputs collide. -/
theorem signature_separates {script script' : String} {w w' : World} {content content' : Bytes}
    {modified modified' : Stamp} (invocation invocation' : String)
    (hr : read script w = (.ok content, w)) (hm : Files.modified script w = (.ok modified, w))
    (hr' : read script' w' = (.ok content', w'))
    (hm' : Files.modified script' w' = (.ok modified', w')) :
    let hashed := text (digestOf content) modified invocation
    let hashed' := text (digestOf content') modified' invocation'
    Files.signature script invocation w = (.ok (sha256 (Bytes.ofText hashed)), w) ∧
      Files.signature script' invocation' w' = (.ok (sha256 (Bytes.ofText hashed')), w') ∧
      (hashed = hashed' ↔ digestOf content = digestOf content' ∧
        modified.milliseconds / 1000 = modified'.milliseconds / 1000 ∧
        invocation = invocation') ∧
      (Sha256.Separates [content, content', Bytes.ofText hashed, Bytes.ofText hashed'] →
        (sha256 (Bytes.ofText hashed) = sha256 (Bytes.ofText hashed') ↔ content = content' ∧
          modified.milliseconds / 1000 = modified'.milliseconds / 1000 ∧
          invocation = invocation')) := by
  intro hashed hashed'
  have htext := text_inj content content' modified modified' invocation invocation'
  refine ⟨?_, ?_, htext, fun hseparates => ?_⟩
  · rw [Files.signature, bind_ok hr, bind_ok hm]
    rfl
  · rw [Files.signature, bind_ok hr', bind_ok hm']
    rfl
  · constructor
    · intro h
      have hhashed : hashed = hashed' :=
        Bytes.ofText_injective (hseparates _ (by simp) _ (by simp) h)
      obtain ⟨hdigest, hmodified, hinvocation⟩ := htext.mp hhashed
      rw [digestOf_eq, digestOf_eq] at hdigest
      exact ⟨hseparates _ (by simp) _ (by simp) hdigest, hmodified, hinvocation⟩
    · rintro ⟨rfl, hmodified, hinvocation⟩
      have hhashed : hashed = hashed' := htext.mpr ⟨rfl, hmodified, hinvocation⟩
      rw [hhashed]

/-- A script as it is at two times that are half a second apart. -/
def retouched (stamp : Stamp) : World := .start (.folder [("W", .folder
  [("a.py", .file [112] stamp)])])

/-- The time of modification and a colon in the arguments make a difference. -/
theorem signature_separates_retouched :
    let before := text (digestOf [112]) ⟨-1, 0⟩ "1:a"
    let after := text (digestOf [112]) ⟨-1, 500000000⟩ "a"
    Sha256.Separates [[112], [112], Bytes.ofText before, Bytes.ofText after] ∧
      Files.signature "/W/a.py" "1:a" (retouched ⟨-1, 0⟩) =
        (.ok (sha256 (Bytes.ofText before)), retouched ⟨-1, 0⟩) ∧
      Files.signature "/W/a.py" "a" (retouched ⟨-1, 500000000⟩) =
        (.ok (sha256 (Bytes.ofText after)), retouched ⟨-1, 500000000⟩) ∧
      before ≠ after ∧ sha256 (Bytes.ofText before) ≠ sha256 (Bytes.ofText after) := by
  intro before after
  have hcollision : Sha256.Separates [[112], [112], Bytes.ofText before, Bytes.ofText after] := by
    decide +kernel
  obtain ⟨hbefore, hafter, htext, hsignature⟩ := @signature_separates "/W/a.py" "/W/a.py"
    (retouched ⟨-1, 0⟩) (retouched ⟨-1, 500000000⟩) [112] [112] ⟨-1, 0⟩ ⟨-1, 500000000⟩ "1:a" "a"
    rfl rfl rfl rfl
  exact ⟨hcollision, hbefore, hafter, fun h => absurd (htext.mp h).2.2 (by decide),
    fun h => absurd ((hsignature hcollision).mp h).2.2 (by decide)⟩

end Files

end ScriptPack

import Mathlib.Data.Nat.Digits.Defs
import ScriptPack.Cache.Basic
import ScriptPack.Proofs.FileSystem.Operations

/-!
The signature of a script. It is a digest, and finding it out only looks at the script.
-/

namespace ScriptPack

open Effect

/-- The text of a digest: sixty-four digits in base sixteen. -/
structure Signature.IsDigest (signature : String) : Prop where
  digits : ∀ c ∈ signature.toList, c.isDigit = true ∨ c ∈ "abcdef".toList
  length : signature.toList.length = 64

theorem Sha256.length_hexDigits (x : UInt32) : (hexDigits x).length = 8 := by
  have hlength := Nat.toDigits_length 16 x.toNat 8 (by decide) x.toNat_lt
  rw [hexDigits, List.length_append, List.length_replicate]
  omega

theorem Signature.isDigest_digest (hasher : Hasher) : IsDigest hasher.digest := by
  have hdigit : ∀ n < 16, (Nat.digitChar n).isDigit = true ∨ Nat.digitChar n ∈ "abcdef".toList := by
    decide
  have hdigits (n : Nat) : ∀ c ∈ Nat.toDigits 16 n, c.isDigit = true ∨ c ∈ "abcdef".toList := by
    induction n using Nat.strongRecOn with
    | ind n ih =>
        intro c hc
        rw [Nat.toDigits_eq_if (by decide)] at hc
        split at hc
        · rw [List.mem_singleton.mp hc]
          exact hdigit n ‹_›
        · rcases List.mem_append.mp hc with hc | hc
          · exact ih (n / 16) (by omega) c hc
          · rw [List.mem_singleton.mp hc]
            exact hdigit _ (Nat.mod_lt _ (by decide))
  refine ⟨fun c hc => ?_, by simp [Hasher.digest, Sha256.length_hexDigits]⟩
  rw [Hasher.digest, String.toList_ofList, List.mem_flatMap] at hc
  obtain ⟨word, -, hc⟩ := hc
  rw [Sha256.hexDigits, List.mem_append] at hc
  rcases hc with hc | hc
  · rw [(List.mem_replicate.mp hc).2]
    decide
  · exact hdigits _ c hc

theorem Signature.isDigest_of (content : Bytes) (modified : Stamp) (invocation : String) :
    IsDigest (Signature.of content modified invocation) := isDigest_digest _

namespace Files

variable {w : World} {path script invocation signature : String}

theorem modified_same (path : String) (w : World) :
    (∃ stamp, modified path w = (.ok stamp, w)) ∨
      ∃ failure, modified path w = (.error (.failed failure), w) := by
  cases hp : Lookup.place? w.root true (absolute w path) with
  | error error => exact .inr ⟨_, by rw [modified, bind_error (require_error hp)]⟩
  | ok place =>
      cases place with
      | free loc => exact .inr ⟨_, by rw [modified, bind_error (require_free hp)]⟩
      | found loc node =>
          cases node with
          | file content stamp =>
              exact .inl ⟨stamp, by rw [modified, bind_ok (require_found hp)]; rfl⟩
          | folder entries =>
              exact .inr ⟨.system .isDirectory, by rw [modified, bind_ok (require_found hp)]; rfl⟩
          | link target =>
              exact .inr ⟨.system .isDirectory, by rw [modified, bind_ok (require_found hp)]; rfl⟩

/-- The signature of what a script and its time of modification are now. -/
theorem signature_cases (script invocation : String) (w : World) :
    (∃ content stamp, read script w = (.ok content, w) ∧ modified script w = (.ok stamp, w) ∧
      Files.signature script invocation w = (.ok (Signature.of content stamp invocation), w)) ∨
    ∃ failure, Files.signature script invocation w = (.error (.failed failure), w) := by
  rcases read_same script w with ⟨content, hr⟩ | ⟨failure, hr⟩
  · rcases modified_same script w with ⟨stamp, hm⟩ | ⟨failure, hm⟩
    · refine .inl ⟨content, stamp, hr, hm, ?_⟩
      rw [Files.signature, bind_ok hr, bind_ok hm]
      rfl
    · refine .inr ⟨failure, ?_⟩
      rw [Files.signature, bind_ok hr, bind_error hm]
  · refine .inr ⟨failure, ?_⟩
    rw [Files.signature, bind_error hr]

theorem isDigest_of_signature (h : Files.signature script invocation w = (.ok signature, w)) :
    Signature.IsDigest signature := by
  rcases signature_cases script invocation w with ⟨content, stamp, -, -, hs⟩ | ⟨failure, hs⟩
  · cases h.symm.trans hs
    exact Signature.isDigest_of content stamp invocation
  · cases h.symm.trans hs

end Files

namespace Cache

theorem signature?_ok {script invocation signature : String} {w : World}
    (h : Files.signature script invocation w = (.ok signature, w)) :
    signature? script invocation w = (.ok (some signature), w) := by
  rw [signature?, bind_ok (attempt_ok h)]
  rfl

theorem signature?_cases (script invocation : String) (w : World) :
    (∃ signature, Files.signature script invocation w = (.ok signature, w) ∧
      signature? script invocation w = (.ok (some signature), w)) ∨
    Does (signature? script invocation) w none w.root := by
  rcases Files.signature_cases script invocation w with ⟨content, stamp, -, -, hs⟩ | ⟨failure, hs⟩
  · exact .inl ⟨_, hs, signature?_ok hs⟩
  · right
    rw [signature?, Does, bind_ok (attempt_failed hs)]
    refine (warnFailed_does _ _ _ w).bind fun w' he => ?_
    rw [← he.root_eq]
    exact does_pure none w'

end Cache

end ScriptPack

import ScriptPack.Cache.Find
import ScriptPack.Proofs.Cache.Consistent

/-!
Finding an artifact. The answer is the artifact of the record with the signature; if that is gone,
the record is dropped.
-/

namespace ScriptPack.Cache

open Effect Node Lookup Files

variable {cache : Cache} {w : World} {entries : List (String × Node)} {signature : String}
  {shared : Bool}

/-- An answer changes nothing and names the artifact of a record that is there. -/
def Answers (cache : Cache) (signature : String) (w : World) (answer : Option String) : Prop :=
  ∀ artifact ∈ answer, ∃ entry, cache.store.records.get? signature = some entry ∧
    artifact = cache.artifact entry ∧ exists? artifact w = (.ok true, w)

/-- A signature has a record that is not expired, and its artifact is there or it is not. -/
def Has (there : Bool) (cache : Cache) (signature : String) (w : World) (entry : Entry) : Prop :=
  cache.settings.enabled = true ∧ cache.store.records.get? signature = some entry ∧
    cache.isExpired w.clock entry = false ∧ exists? (cache.artifact entry) w = (.ok there, w)

/-- The path at which a lookup finds an artifact. -/
def Finds (cache : Cache) (signature : String) (w : World) (path : String) : Prop :=
  ∃ entry, Has true cache signature w entry ∧ path = cache.artifact entry

/-- The artifact of a record is gone. -/
def Stale (cache : Cache) (signature : String) (w : World) : Prop :=
  ∃ entry, Has false cache signature w entry

theorem Has.unique {there there' : Bool} {entry entry' : Entry}
    (h : Has there cache signature w entry) (h' : Has there' cache signature w entry') :
    entry = entry' ∧ there = there' := by
  obtain ⟨-, hg, -, hx⟩ := h
  obtain ⟨-, hg', -, hx'⟩ := h'
  cases hg.symm.trans hg'
  cases hx.symm.trans hx'
  exact ⟨rfl, rfl⟩

theorem reportMiss_does (signature reason : String) (w : World) :
    Does (reportMiss signature reason) w () w.root := traceInfo_does _ _ w

theorem dropRecord_open {loc : Location} (hroot : cache.store.root = cache.directory)
    (h : Open cache.directory loc entries w) (hc : Consistent shared entries cache.store.records)
    (signature : String) :
    ∃ entries', Does (cache.dropRecord signature) w
        (cache.withRecords (cache.store.records.erase [signature]))
        (put loc (.folder entries') w.root) ∧
      WellFormed (.folder entries') ∧
      Consistent shared entries' (cache.store.records.erase [signature]) ∧
      ∀ name, name ≠ documentName → entries'.lookup name = entries.lookup name := by
  obtain ⟨entries', hd, hwf, hc', hl⟩ := deleteMany_open (hroot ▸ h) hc [signature]
  refine ⟨entries', ?_, hwf, hc', hl⟩
  rw [dropRecord]
  exact h.bind hd.attempt hwf fun w' ho _ => ho.does_same (does_pure _ w')

/-- A lookup writes some lines and answers, or drops the record of an artifact that is gone. -/
theorem lookupSignature_run (cache : Cache) (signature : String) (w : World) :
    (¬cache.Stale signature w ∧ ∃ answer,
      Does (cache.lookupSignature signature) w (answer, cache) w.root ∧
      ∀ path, answer = some path ↔ cache.Finds signature w path) ∨
    ∃ entry w', Has false cache signature w entry ∧ w.Evolves w.root w' ∧
      cache.lookupSignature signature w =
        (do return (none, ← cache.dropRecord signature) : Effect (Option String × Cache)) w' := by
  -- Whatever the answer, some lines are written before it is given.
  have hsay {x y : Effect Unit} {answer : Option String} (hx : ∀ w, Does x w () w.root)
      (hy : ∀ w, Does y w () w.root)
      (hk : cache.lookupSignature signature w = (do x; y; return (answer, cache)) w) :
      Does (cache.lookupSignature signature) w (answer, cache) w.root := by
    obtain ⟨w₁, hx, he₁⟩ := hx w
    obtain ⟨w₂, hy, he₂⟩ := hy w₁
    rw [he₁.root_eq] at he₂
    refine ⟨w₂, ?_, he₁.trans he₂⟩
    rw [hk, bind_ok hx, bind_ok hy]
    rfl
  -- A miss is answered where there is no record that could be used.
  have hmiss (hnot : ∀ there entry, ¬Has there cache signature w entry)
      (hd : Does (cache.lookupSignature signature) w (none, cache) w.root) :
      ¬cache.Stale signature w ∧ ∃ answer,
        Does (cache.lookupSignature signature) w (answer, cache) w.root ∧
        ∀ path, answer = some path ↔ cache.Finds signature w path :=
    ⟨fun ⟨entry, hs⟩ => hnot false entry hs, none, hd,
      fun path => ⟨nofun, fun ⟨entry, hf, _⟩ => absurd hf (hnot true entry)⟩⟩
  by_cases henabled : cache.settings.enabled = true
  · cases hg : cache.store.records.get? signature with
    | none =>
        have hbegin : cache.lookupSignature signature w = (do
            logFields .cache "cache miss" [("signature", .string signature)]
            reportMiss signature "absent"
            return (none, cache)) w := by
          rw [lookupSignature, if_neg (by simp [henabled]), hg]
        refine .inl (hmiss ?_ (hsay (logFields_does _ _ _) (reportMiss_does _ _) hbegin))
        rintro there entry ⟨-, hg', -⟩
        cases hg.symm.trans hg'
    | some entry =>
        by_cases hexpired : cache.isExpired w.clock entry = true
        · have hbegin : cache.lookupSignature signature w = (do
              logFields .cache "cache expired" [("signature", .string signature),
                ("storedAt", .string (entry.storedAt.iso?.getD ""))]
              reportMiss signature "expired"
              return (none, cache)) w := by
            rw [lookupSignature, if_neg (by simp [henabled]), hg]
            simp only
            rw [bind_ok (get_apply w), if_pos hexpired]
          refine .inl (hmiss ?_ (hsay (logFields_does _ _ _) (reportMiss_does _ _) hbegin))
          rintro there entry' ⟨-, hg', hexpired', -⟩
          cases hg.symm.trans hg'
          exact absurd (hexpired.symm.trans hexpired') nofun
        · have hbegin : cache.lookupSignature signature w = (do
              if !(← exists? (cache.artifact entry)) then
                reportMiss signature "artifact-missing"
                return (none, ← cache.dropRecord signature)
              else
                logFields .cache "cache hit"
                  [("signature", .string signature), ("artifact", .string (cache.artifact entry))]
                traceInfo "cache.hit"
                  [("signature", .string signature), ("cacheId", .string entry.cacheId)]
                return (some (cache.artifact entry), cache)) w := by
            rw [lookupSignature, if_neg (by simp [henabled]), hg]
            simp only
            rw [bind_ok (get_apply w), if_neg hexpired]
          obtain ⟨there, hx⟩ := exists?_same (cache.artifact entry) w
          have hhas : Has there cache signature w entry :=
            ⟨henabled, hg, by simpa using hexpired, hx⟩
          rw [bind_ok hx] at hbegin
          cases there with
          | true =>
              refine .inl ⟨fun ⟨entry', hs⟩ => absurd (hhas.unique hs).2 nofun,
                some (cache.artifact entry),
                hsay (logFields_does _ _ _) (traceInfo_does _ _) hbegin, fun path => ?_⟩
              constructor
              · rintro ⟨⟩
                exact ⟨entry, hhas, rfl⟩
              · rintro ⟨entry', hf, rfl⟩
                rw [(hhas.unique hf).1]
          | false =>
              obtain ⟨w₁, hx₁, he₁⟩ := reportMiss_does signature "artifact-missing" w
              refine .inr ⟨entry, w₁, hhas, he₁, ?_⟩
              simp only [Bool.not_false, if_true] at hbegin
              rw [hbegin, bind_ok hx₁]
  · refine .inl (hmiss ?_ (does_of_eq ?_))
    · rintro there entry ⟨henabled', -⟩
      exact henabled henabled'
    · rw [lookupSignature, if_pos (by simpa using henabled)]
      rfl

theorem finds_of_lookupSignature {signature path : String} {cache' : Cache}
    (h : cache.lookupSignature signature w = (.ok (some path, cache'), w')) :
    cache.Finds signature w path := by
  rcases lookupSignature_run cache signature w with
    ⟨-, answer, ⟨w₁, hx, -⟩, hfinds⟩ | ⟨entry, w₁, -, -, hrun⟩
  · cases hx.symm.trans h
    exact (hfinds path).mp rfl
  · rw [hrun] at h
    cases hx : cache.dropRecord signature w₁ with
    | mk result w₂ =>
        cases result with
        | ok dropped =>
            rw [bind_ok hx] at h
            cases h
        | error stop =>
            rw [bind_error hx] at h
            cases h

theorem lookupSignature_cases (h : Stands shared cache entries w) (signature : String) :
    (∃ answer, Does (cache.lookupSignature signature) w (answer, cache) w.root ∧
      cache.Answers signature w answer) ∨
    ∃ entry entries' w', cache.lookupSignature signature w =
        (.ok (none, cache.withRecords (cache.store.records.erase [signature])), w') ∧
      Stands shared (cache.withRecords (cache.store.records.erase [signature])) entries' w' ∧
      cache.store.records.get? signature = some entry ∧
      exists? (cache.artifact entry) w = (.ok false, w) ∧
      ∀ name, name ≠ documentName → entries'.lookup name = entries.lookup name := by
  rcases lookupSignature_run cache signature w with
    ⟨-, answer, hd, ha⟩ | ⟨entry, w₁, ⟨-, hg, -, hx⟩, he₁, hrun⟩
  · refine .inl ⟨answer, hd, fun artifact hmem => ?_⟩
    obtain ⟨entry, ⟨-, hg, -, hx⟩, rfl⟩ := (ha artifact).mp hmem
    exact ⟨entry, hg, rfl, hx⟩
  · rcases h.shelf with ⟨-, rfl⟩ | ⟨loc, ho⟩
    · have hmem := (Records.mem_of_get? hg).1
      rw [h.records_eq_nil] at hmem
      cases hmem
    · have ho₁ := ho.same he₁
      obtain ⟨entries', ⟨w₂, hx₂, he₂⟩, hwf, hc', hl⟩ :=
        dropRecord_open h.root_eq ho₁ h.consistent signature
      refine .inr ⟨entry, entries', w₂, ?_, ⟨h.root_eq, .inr ⟨loc, ho₁.put hwf he₂⟩, hc'⟩, hg, hx, hl⟩
      rw [hrun, bind_ok hx₂]
      rfl

theorem lookup_cases (cache : Cache) (script invocation : String) (w : World) :
    Does (cache.lookup script invocation) w (none, cache) w.root ∨
    ∃ signature, Files.signature script invocation w = (.ok signature, w) ∧
      cache.lookup script invocation w = cache.lookupSignature signature w := by
  rw [Cache.lookup]
  by_cases henabled : cache.settings.enabled = true
  · rw [if_neg (by simp [henabled])]
    rcases signature?_cases script invocation w with ⟨signature, hs, hs'⟩ | ⟨w', hx, he⟩
    · exact .inr ⟨signature, hs, bind_ok hs'⟩
    · refine .inl ⟨w', ?_, he⟩
      rw [bind_ok hx]
      rfl
  · rw [if_pos (by simpa using henabled)]
    exact .inl (does_pure _ w)

end ScriptPack.Cache

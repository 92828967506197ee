import ScriptPack.Proofs.Cache.ReadBack
import ScriptPack.Proofs.Json.Fields

/-!
Documents of any origin. What is read from a document, whoever has written it, is written and read
again as it was, in the same order, but for the record under the key `__proto__`, which is lost, and
for sizes beyond all finite numbers, which come back as zero.
-/

namespace ScriptPack

theorem Timestamp.bounds_of_ofMilliseconds {t ms : Int} (h : ofMilliseconds t = .at ms) :
    -limit ≤ ms ∧ ms ≤ limit := by
  rw [ofMilliseconds] at h
  split at h
  · rename_i hrange
    cases h
    simpa using hrange
  · cases h

/-- A moment that a text names is in the range of dates. -/
theorem Time.DateText.bounds_of_read {text : String} {ms : Int} (h : read text = .at ms) :
    -Timestamp.limit ≤ ms ∧ ms ≤ Timestamp.limit := by
  have hparts {p : Parts} (hp : p.timestamp = .at ms) :
      -Timestamp.limit ≤ ms ∧ ms ≤ Timestamp.limit := by
    rw [Parts.timestamp] at hp
    split at hp
    · exact Timestamp.bounds_of_ofMilliseconds hp
    · cases hp
  rw [read] at h
  split at h
  · exact hparts h
  · cases h
  · split at h
    · exact hparts h
    · cases h

namespace Document

variable {entry : Entry} {records : Records} {signature text : String}

/-! ### What is read -/

/-- A size that is read is a whole number of bytes, or beyond all of them. -/
theorem bytesOf_eq_ofNat (size : Option Json) : ∃ n, bytesOf size = .ofNat n := by
  rw [bytesOf.eq_def]
  split
  · split
    · rename_i n hsize
      cases n with
      | nan => cases hsize
      | infinite negative => cases hsize
      | finite q =>
          have hpos : 0 < q := of_decide_eq_true hsize
          rw [bytesPerMB_eq]
          exact Number.roundHalfUp_ofRat (mul_nonneg hpos.le (by norm_num))
    · exact ⟨0, rfl⟩
  · exact ⟨0, rfl⟩

/-- An entry that is read from a record has a safe id, a time in range and a size. -/
theorem entry?_eq_some {record : Json} (h : entry? signature record = some entry) :
    entry.signature = signature ∧ Cache.isSafeId entry.cacheId = true ∧
      (∃ ms : Int, entry.storedAt = .at ms ∧ -Timestamp.limit ≤ ms ∧ ms ≤ Timestamp.limit) ∧
      ∃ n, entry.sizeBytes = .ofNat n := by
  rw [Document.entry?] at h
  split at h
  · rename_i cacheId time _ _
    split at h
    · cases h
    · rename_i hsafe
      cases hread : Time.DateText.read time with
      | invalid =>
          rw [hread] at h
          cases h
      | «at» ms =>
          rw [hread] at h
          cases h
          exact ⟨rfl, by simpa using hsafe, ⟨ms, rfl, Time.DateText.bounds_of_read hread⟩,
            bytesOf_eq_ofNat _⟩
  · cases h

/-- The records of a text are those of an object, if it is one. -/
theorem exists_fields (h : parse text = .ok records) : ∃ fields : Fields Json, fields.Arranged ∧
    records = fields.filterMap fun (signature, record) => entry? signature record := by
  rw [parse] at h
  split at h
  · cases h
  · rename_i fields hparse
    cases h
    exact ⟨fields, Json.arranged_parse? hparse, rfl⟩
  · cases h
    exact ⟨[], .nil, rfl⟩

/-- Two records come from two fields. -/
theorem pairwise_entries {R : String → String → Prop} {fields : Fields Json}
    (h : fields.Pairwise fun a b => R a.1 b.1) :
    (fields.filterMap fun (signature, record) => entry? signature record).Pairwise
      fun a b => R a.signature b.signature := by
  refine List.pairwise_filterMap.mpr (h.imp fun {a b} hab x hx y hy => ?_)
  rw [(entry?_eq_some hx).1, (entry?_eq_some hy).1]
  exact hab

/-- The records that are read have distinct signatures, in the order of keys. -/
theorem arranged_parse (h : parse text = .ok records) :
    (records.map (·.signature)).Nodup ∧
      records.Pairwise fun a b => Json.MayPrecede a.signature b.signature := by
  obtain ⟨fields, hfields, rfl⟩ := exists_fields h
  exact ⟨List.pairwise_map.mpr (pairwise_entries (List.pairwise_map.mp hfields.distinct)),
    pairwise_entries hfields.ordered⟩

theorem of_mem_parse (h : parse text = .ok records) (he : entry ∈ records) :
    Cache.isSafeId entry.cacheId = true ∧
      (∃ ms : Int, entry.storedAt = .at ms ∧ -Timestamp.limit ≤ ms ∧ ms ≤ Timestamp.limit) ∧
      ∃ n, entry.sizeBytes = .ofNat n := by
  obtain ⟨fields, -, rfl⟩ := exists_fields h
  obtain ⟨⟨signature, record⟩, -, hentry⟩ := List.mem_filterMap.mp he
  exact (entry?_eq_some hentry).2

theorem dated_of_parse (h : parse text = .ok records) : ∀ e ∈ records, e.storedAt ≠ .invalid := by
  intro e he
  obtain ⟨-, ⟨ms, hms, -⟩, -⟩ := of_mem_parse h he
  rw [hms]
  exact nofun

/-! ### What is read again -/

/-- Whether an entry has a field in the document. -/
def isWritten (entry : Entry) : Bool := entry.signature != "__proto__"

/-- Entries without a field are passed over. -/
theorem serialize_filter (h : ∀ e ∈ records, e.storedAt ≠ .invalid) :
    serialize records = serialize (records.filter isWritten) := by
  have hfold (before : Fields Json) :
      records.foldlM addRecord before = (records.filter isWritten).foldlM addRecord before := by
    induction records generalizing before with
    | nil => rfl
    | cons entry rest ih =>
        have hrest := ih fun e he => h e (List.mem_cons_of_mem _ he)
        cases hwritten : isWritten entry with
        | true =>
            rw [List.filter_cons, if_pos hwritten, List.foldlM_cons, List.foldlM_cons]
            exact congrArg _ (funext hrest)
        | false =>
            have hkey : (entry.signature == "__proto__") = true := by
              simpa [isWritten] using hwritten
            have hadd : addRecord before entry = .ok before := by
              cases htime : entry.storedAt with
              | invalid => exact absurd htime (h entry List.mem_cons_self)
              | «at» ms =>
                  rw [addRecord, htime, hkey]
                  rfl
            rw [List.filter_cons, hwritten, if_neg (by decide), List.foldlM_cons, hadd]
            exact hrest before
  rw [serialize, serialize, hfold]

/-- What comes back is what was there if each record has a field and a finite size. -/
theorem restored_eq_iff (records : Records) :
    (records.filter isWritten).map restored = records ↔
      ∀ e ∈ records, e.signature ≠ "__proto__" ∧ e.sizeBytes.isFinite = true := by
  constructor
  · intro h
    have hall : ∀ e ∈ records, isWritten e = true := by
      have hlength := congrArg List.length h
      rw [List.length_map] at hlength
      exact List.length_filter_eq_length_iff.mp hlength
    rw [List.filter_eq_self.mpr hall] at h
    intro e he
    have hself : restored e = e := List.map_inj_left.mp (h.trans (List.map_id records).symm) e he
    refine ⟨by simpa [isWritten] using hall e he, ?_⟩
    -- A size without a text would have come back as zero.
    by_contra hinfinite
    have hzero : e.sizeBytes = 0 := by
      rw [← hself, restored, restoredSize, if_neg hinfinite]
    rw [hzero] at hinfinite
    exact hinfinite rfl
  · intro h
    have hall : ∀ e ∈ records, isWritten e = true := fun e he => by
      simpa [isWritten] using (h e he).1
    rw [List.filter_eq_self.mpr hall]
    exact (List.map_congr_left fun e he => restored_eq_self (h e he).2).trans (List.map_id _)

/-- The records of any document can be written. What is then read are the same records, in the same
order, without that of the key `__proto__` and with zero for a size beyond all finite numbers; so
the records are stable exactly if there is no such record and no such size. -/
theorem parse_again (h : parse text = .ok records) :
    (∀ e ∈ records, ∃ n, e.sizeBytes = .ofNat n) ∧
      ∃ again, serialize records = .ok again ∧
        parse again = .ok ((records.filter isWritten).map restored) ∧
        (parse again = .ok records ↔
          ∀ e ∈ records, e.signature ≠ "__proto__" ∧ e.sizeBytes.isFinite = true) := by
  obtain ⟨hdistinct, hordered⟩ := arranged_parse h
  have hsublist : (records.filter isWritten).Sublist records := List.filter_sublist
  have hcodable : ∀ e ∈ records.filter isWritten, Codable e := fun e he => by
    obtain ⟨hmem, hwritten⟩ := List.mem_filter.mp he
    obtain ⟨hid, htime, hsize⟩ := of_mem_parse h hmem
    exact ⟨by simpa [isWritten] using hwritten, hid, htime, hsize⟩
  have hnodup : ((records.filter isWritten).map (·.signature)).Nodup :=
    hdistinct.sublist (hsublist.map _)
  have horder : Json.inKeyOrder Entry.signature (records.filter isWritten) =
      records.filter isWritten := Json.inKeyOrder_of_pairwise (hordered.sublist hsublist)
  have hparse := parse_fields hcodable hnodup horder
  refine ⟨fun e he => (of_mem_parse h he).2.2, _, ?_, hparse, ?_⟩
  · rw [serialize_filter (dated_of_parse h), serialize_eq hcodable hnodup, horder]
  · rw [hparse, Except.ok.injEq]
    exact restored_eq_iff records

end Document

end ScriptPack

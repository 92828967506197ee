import Mathlib
import ScriptPack.Proofs.Cache.Consistent
import ScriptPack.Proofs.Json.KeyOrder
import ScriptPack.Proofs.Json.ReadBack
import ScriptPack.Proofs.Number.Magnitude
import ScriptPack.Proofs.Text.Utf8
import ScriptPack.Proofs.Time.ReadBack

/-!
The document read back. Records with plain signatures, safe ids and times are read from the document
as they were written, in the same order, up to sizes beyond all finite numbers, which have no text;
and the records of a cache are of this kind.
-/

namespace ScriptPack

namespace Document

variable {entry : Entry} {records : Records} {time : String}

/-! ### Sizes -/

theorem bytesPerMB_eq : bytesPerMB = .finite (2 ^ 20) := by
  have hpower : bytesPerMB = .ofNat (2 ^ 20) := rfl
  rw [hpower, Number.ofNat_of_le (by decide)]
  norm_num

/-- A finite size in mebibytes is a number from which the size is found again. -/
theorem bytesOf_size {n : Nat} (h : (Number.ofNat n).isFinite = true) :
    ∃ q : Rat, Number.ofNat n / bytesPerMB = .finite q ∧ Number.ofRat q = .finite q ∧
      bytesOf (some (.number (.finite q))) = .ofNat n := by
  obtain ⟨q, hq⟩ : ∃ q, Number.ofNat n = .finite q := by
    cases hn : Number.ofNat n with
    | finite q => exact ⟨q, rfl⟩
    | nan => rw [hn] at h; cases h
    | infinite negative => rw [hn] at h; cases h
  obtain ⟨m, rfl⟩ := Number.ofNat_eq_finite hq
  have hrounded : Number.ofRat m = .finite m := Number.isRounded_ofRat n _ hq
  have hdiv : Number.ofNat n / bytesPerMB = .ofRat (m / 2 ^ 20) := by
    rw [hq, bytesPerMB_eq]
    change Number.div (.finite m) (.finite (2 ^ 20)) = _
    rw [Number.div, if_neg (show ¬(2 : Rat) ^ 20 = 0 by norm_num)]
  rw [hdiv, hq]
  rcases Nat.eq_zero_or_pos m with rfl | hm
  · refine ⟨0, by rw [Nat.cast_zero, zero_div]; rfl, rfl, rfl⟩
  have hone : (1 : Rat) ≤ m := by exact_mod_cast hm
  have hfits : Number.Fits m := ⟨by linarith, hrounded⟩
  have hexact := hfits.div_powerOfTwo hone (by decide : 20 ≤ 1000)
  refine ⟨m / 2 ^ 20, hexact, hexact, ?_⟩
  have hless : Number.less 0 (.finite (m / 2 ^ 20)) = true := by
    have hpos : (0 : Rat) < m / 2 ^ 20 := by positivity
    exact decide_eq_true hpos
  have hmul : Number.finite (m / 2 ^ 20) * bytesPerMB = .finite m := by
    have hback : (m : Rat) / 2 ^ 20 * 2 ^ 20 = m := by ring
    rw [bytesPerMB_eq]
    change Number.ofRat _ = _
    rw [hback, hrounded]
  have hfloor : ((m : Rat) + 1 / 2).floor = m := by
    change ⌊(m : Rat) + 1 / 2⌋ = m
    rw [Int.floor_eq_iff]
    constructor <;> push_cast <;> linarith
  rw [bytesOf, Number.isFinite, hless]
  simp only [Bool.and_self, if_true]
  rw [hmul, Number.roundHalfUp, hfloor]
  rfl

/-- The size that is read where a number of bytes was written. -/
def restoredSize (size : Number) : Number := if size.isFinite then size else 0

theorem exists_size (n : Nat) :
    ∃ size, (Json.number (Number.ofNat n / bytesPerMB)).written = size ∧ size.Readable ∧
      bytesOf (some size) = restoredSize (.ofNat n) := by
  by_cases hfinite : (Number.ofNat n).isFinite = true
  · obtain ⟨q, hq, hrounded, hbytes⟩ := bytesOf_size hfinite
    refine ⟨.number (.finite q), by rw [hq]; rfl, .number hrounded, ?_⟩
    rw [hbytes, restoredSize, if_pos hfinite]
  · have hlost : (Number.ofNat n / bytesPerMB).isFinite = false := by
      rw [bytesPerMB_eq]
      cases hn : Number.ofNat n with
      | finite q => exact absurd (by rw [hn]; rfl) hfinite
      | nan => rfl
      | infinite negative => rfl
    refine ⟨.null, ?_, .null, ?_⟩
    · rw [Json.written, hlost, if_neg (by decide)]
    · rw [restoredSize, if_neg hfinite]
      rfl

/-! ### Records -/

/-- An entry that can be read from its record: its id is safe, and its time is in range. -/
structure Codable (entry : Entry) : Prop where
  signature : entry.signature ≠ "__proto__"
  id : Cache.isSafeId entry.cacheId = true
  time : ∃ ms : Int, entry.storedAt = .at ms ∧ -Timestamp.limit ≤ ms ∧ ms ≤ Timestamp.limit
  size : ∃ n, entry.sizeBytes = .ofNat n

/-- An entry whose record reads back in its place. -/
structure Restorable (entry : Entry) : Prop where
  signature : Json.arrayIndex? entry.signature = none ∧ entry.signature ≠ "__proto__"
  id : Cache.isSafeId entry.cacheId = true
  time : ∃ ms : Int, entry.storedAt = .at ms ∧ -Timestamp.limit ≤ ms ∧ ms ≤ Timestamp.limit
  size : ∃ n, entry.sizeBytes = .ofNat n

/-- The entry that is read from the record of an entry. -/
def restored (entry : Entry) : Entry := { entry with sizeBytes := restoredSize entry.sizeBytes }

theorem restored_eq_self (h : entry.sizeBytes.isFinite = true) : restored entry = entry := by
  rw [restored, restoredSize, if_pos h]

theorem Restorable.codable (h : Restorable entry) : Codable entry :=
  ⟨h.signature.2, h.id, h.time, h.size⟩

namespace Codable

/-- The written form of the time of the entry. -/
theorem iso? (h : Codable entry) :
    ∃ time, entry.storedAt.iso? = some time ∧ Time.DateText.read time = entry.storedAt := by
  obtain ⟨ms, hms, hlow, hhigh⟩ := h.time
  rw [hms]
  obtain ⟨time, ht⟩ : ∃ time, (Timestamp.at ms).iso? = some time := ⟨_, rfl⟩
  exact ⟨time, ht, Time.DateText.read_iso hlow hhigh ht⟩

/-- The record of an entry with what is written for its size. -/
theorem written_record (h : Codable entry) (time : String) :
    ∃ size, (record entry time).written = .object [("cacheId", .string entry.cacheId),
        ("storedAt", .string time), ("sourcePath", .string entry.sourcePath),
        ("invocation", .string entry.invocation), ("sizeMB", size)] ∧
      size.Readable ∧ bytesOf (some size) = restoredSize entry.sizeBytes := by
  obtain ⟨n, hn⟩ := h.size
  obtain ⟨size, hsize, hreadable, hbytes⟩ := exists_size n
  refine ⟨size, ?_, hreadable, hn ▸ hbytes⟩
  rw [record, hn, Json.written]
  simp only [Json.writtenFields, hsize]
  rfl

theorem readable (h : Codable entry) (time : String) : (record entry time).written.Readable := by
  obtain ⟨size, hrecord, hreadable, -⟩ := h.written_record time
  rw [hrecord]
  refine .object rfl fun field hf => ?_
  simp only [List.mem_cons, List.not_mem_nil, or_false] at hf
  rcases hf with rfl | rfl | rfl | rfl | rfl
  · exact .string _
  · exact .string _
  · exact .string _
  · exact .string _
  · exact hreadable

theorem entry?_record (h : Codable entry) (ht : Time.DateText.read time = entry.storedAt) :
    entry? entry.signature (record entry time).written = some (restored entry) := by
  obtain ⟨size, hrecord, -, hbytes⟩ := h.written_record time
  obtain ⟨ms, hms, -⟩ := h.time
  have hread : Time.DateText.read time = .at ms := ht.trans hms
  rw [hrecord, restored, ← hbytes, hms, entry?]
  split
  · rename_i hid htime
    cases hid
    cases htime
    rw [h.id, if_neg (by decide), hread]
    rfl
  · rename_i hnone
    exact (hnone _ _ rfl rfl).elim

end Codable

/-- The field of an entry in the document. -/
def field (entry : Entry) : String × Json :=
  (entry.signature, record entry (entry.storedAt.iso?.getD ""))

theorem keys_field (records : Records) :
    (records.map field).map (·.1) = records.map (·.signature) := by
  rw [List.map_map]
  rfl

theorem foldlM_addRecord_eq (h : ∀ e ∈ records, Codable e) (before : Fields Json) :
    records.foldlM addRecord before =
      .ok ((records.map field).foldl (fun fields f => Fields.set fields f.1 f.2) before) := by
  induction records generalizing before with
  | nil => rfl
  | cons entry records ih =>
      have he := h entry List.mem_cons_self
      obtain ⟨time, ht, -⟩ := he.iso?
      have hproto : (entry.signature == "__proto__") = false := beq_eq_false_iff_ne.mpr he.signature
      have hadd : addRecord before entry = .ok (before.set (field entry).1 (field entry).2) := by
        rw [addRecord, ht]
        simp only
        rw [hproto, if_neg (by decide), field, ht]
        rfl
      rw [List.foldlM_cons, hadd]
      exact ih (fun e he => h e (List.mem_cons_of_mem _ he)) _

/-- The document has a field for each record, in the order of the keys. -/
theorem serialize_eq (h : ∀ e ∈ records, Codable e) (hd : (records.map (·.signature)).Nodup) :
    serialize records =
      .ok ((Json.object ((Json.inKeyOrder Entry.signature records).map field)).indented ++ "\n") := by
  have hfields : (records.map field).foldl (fun fields f => Fields.set fields f.1 f.2) [] =
        (Json.inKeyOrder Entry.signature records).map field := by
    have horder : Fields.ofList (records.map field) = _ :=
      Fields.ofList_eq_inKeyOrder (by rw [keys_field]; exact hd)
    rw [← Json.map_inKeyOrder field] at horder
    exact horder
  rw [serialize, foldlM_addRecord_eq h, hfields]
  rfl

/-- A document with records in the order of their keys is read as these. -/
theorem parse_fields (h : ∀ e ∈ records, Codable e) (hd : (records.map (·.signature)).Nodup)
    (ho : Json.inKeyOrder Entry.signature records = records) :
    parse ((Json.object (records.map field)).indented ++ "\n") = .ok (records.map restored) := by
  have hwritten : (Json.object (records.map field)).written =
      .object (records.map fun e => ((field e).1, (field e).2.written)) := by
    rw [Json.written, Json.writtenFields_eq_map, List.map_map]
    rfl
  have hvalue : (Json.object (records.map field)).written.Readable := by
    rw [hwritten]
    refine .object ?_ fun f hf => ?_
    · rw [Fields.ofList_eq_inKeyOrder (by rw [List.map_map]; exact hd), ← Json.map_inKeyOrder]
      exact congrArg _ ho
    · obtain ⟨e, he, rfl⟩ := List.mem_map.mp hf
      exact (h e he).readable _
  rw [parse, hvalue.parse?_indented, hwritten]
  simp only
  rw [List.filterMap_map, ← List.filterMap_eq_map]
  congr 1
  refine List.filterMap_congr fun e he => ?_
  obtain ⟨time, ht, hread⟩ := (h e he).iso?
  rw [Function.comp_apply, field, ht]
  exact (h e he).entry?_record hread

/-- Records that can be restored are read from their document. -/
theorem parse_serialize (h : ∀ e ∈ records, Restorable e) (hd : (records.map (·.signature)).Nodup)
    {text : String} (hs : serialize records = .ok text) :
    parse text = .ok (records.map restored) := by
  have hcodable : ∀ e ∈ records, Codable e := fun e he => (h e he).codable
  have horder : Json.inKeyOrder Entry.signature records = records :=
    Json.inKeyOrder_eq_self fun e he => (h e he).signature.1
  rw [serialize_eq hcodable hd, horder] at hs
  cases hs
  exact parse_fields hcodable hd horder

/-- Records with distinct signatures, safe ids, times in range and sizes up to `2 ^ 53` can be
written, and are read again with all that they say. Those whose signatures spell array indices come
first, and the other ones stay in their order. -/
theorem parse_of_serialize (hd : (records.map (·.signature)).Nodup)
    (hproto : ∀ e ∈ records, e.signature ≠ "__proto__")
    (hid : ∀ e ∈ records, Cache.isSafeId e.cacheId = true)
    (htime : ∀ e ∈ records,
      ∃ ms : Int, e.storedAt = .at ms ∧ -Timestamp.limit ≤ ms ∧ ms ≤ Timestamp.limit)
    (hsize : ∀ e ∈ records, ∃ n ≤ 2 ^ 53, e.sizeBytes = .ofNat n) :
    ∃ text, serialize records = .ok text ∧
      parse text = .ok (Json.inKeyOrder Entry.signature records) := by
  have hcodable : ∀ e ∈ records, Codable e := fun e he =>
    ⟨hproto e he, hid e he, htime e he, (hsize e he).imp fun _ hn => hn.2⟩
  have hperm := Json.inKeyOrder_perm Entry.signature records
  have hmem {e : Entry} (he : e ∈ Json.inKeyOrder Entry.signature records) : e ∈ records :=
    hperm.mem_iff.mp he
  refine ⟨_, serialize_eq hcodable hd, ?_⟩
  have hrestored : (Json.inKeyOrder Entry.signature records).map restored =
      Json.inKeyOrder Entry.signature records := by
    refine (List.map_congr_left fun e he => ?_).trans (List.map_id _)
    obtain ⟨n, hle, hn⟩ := hsize e (hmem he)
    exact restored_eq_self (by rw [hn, Number.ofNat_of_le hle]; rfl)
  rw [parse_fields (fun e he => hcodable e (hmem he)) ((hperm.map _).nodup_iff.mpr hd)
    (Json.inKeyOrder_inKeyOrder _ records), hrestored]

/-- Three records, of which two have array indices for signatures: from the first moment that there
is, from the last one and from the epoch. -/
def sampleRecords : Records :=
  [⟨"b", "build_1", .at (-8640000000000000), "/W/b.py", "--name \"b\"", 9007199254740992⟩,
   ⟨"10", "cache_metadata.json", .at 8640000000000000, "", "\x00", 0⟩,
   ⟨"2", "-", .at 0, "/W/\u00e4.py", "", 3⟩]

theorem parse_of_serialize_sample :
    (sampleRecords.map (·.signature)).Nodup ∧
      (∀ e ∈ sampleRecords, e.signature ≠ "__proto__") ∧
      (∀ e ∈ sampleRecords, Cache.isSafeId e.cacheId = true) ∧
      (Json.inKeyOrder Entry.signature sampleRecords).map (·.signature) = ["2", "10", "b"] ∧
      ∃ text, serialize sampleRecords = .ok text ∧
        parse text = .ok (Json.inKeyOrder Entry.signature sampleRecords) := by
  have hdistinct : (sampleRecords.map (·.signature)).Nodup := by decide
  have hproto : ∀ e ∈ sampleRecords, e.signature ≠ "__proto__" := by decide
  have hid : ∀ e ∈ sampleRecords, Cache.isSafeId e.cacheId = true := by decide
  have htime : ∀ e ∈ sampleRecords, ∃ ms : Int,
      e.storedAt = .at ms ∧ -Timestamp.limit ≤ ms ∧ ms ≤ Timestamp.limit := by
    rintro e (_ | ⟨_, _ | ⟨_, _ | ⟨_, ⟨⟩⟩⟩⟩) <;> exact ⟨_, rfl, by decide, by decide⟩
  have hsize : ∀ e ∈ sampleRecords, ∃ n ≤ 2 ^ 53, e.sizeBytes = .ofNat n := by
    rintro e (_ | ⟨_, _ | ⟨_, _ | ⟨_, ⟨⟩⟩⟩⟩)
    · exact ⟨9007199254740992, by decide, rfl⟩
    · exact ⟨0, by decide, rfl⟩
    · exact ⟨3, by decide, rfl⟩
  have horder : (Json.inKeyOrder Entry.signature sampleRecords).map (·.signature) = ["2", "10", "b"] := by
    cbv
  exact ⟨hdistinct, hproto, hid, horder,
    parse_of_serialize hdistinct hproto hid htime hsize⟩

end Document

/-! ### The records of a cache -/

/-- A moment in the range of dates is a finite number not far beyond their limit. -/
theorem Timestamp.ofNumber_bound {now : Number} (h : ofNumber now ≠ .invalid) :
    ∃ q : Rat, now = .finite q ∧ |q| ≤ 8640000000000001 ∧
      ∃ ms : Int, ofNumber now = .at ms ∧ -limit ≤ ms ∧ ms ≤ limit := by
  cases now with
  | nan => exact absurd rfl h
  | infinite negative => exact absurd rfl h
  | finite q =>
      obtain ⟨t, ht, hlow, hhigh⟩ : ∃ t : Int, Number.truncate (.finite q) = .finite t ∧
          |q| - 1 < |(t : Rat)| ∧ |(t : Rat)| ≤ |q| := by
        by_cases hneg : q < 0
        · have hfloor : (-q).floor = ⌊-q⌋ := rfl
          have hle := Int.floor_le (-q)
          have hlt := Int.lt_floor_add_one (-q)
          have hpos : (0 : Rat) ≤ ⌊-q⌋ := by exact_mod_cast Int.floor_nonneg.mpr (by linarith)
          refine ⟨-⌊-q⌋, by simp [Number.truncate, hneg, hfloor], ?_, ?_⟩ <;>
            rw [Int.cast_neg, abs_neg, abs_of_nonneg hpos, abs_of_neg hneg] <;> linarith
        · have hfloor : q.floor = ⌊q⌋ := rfl
          have hle := Int.floor_le q
          have hlt := Int.lt_floor_add_one q
          have hpos : (0 : Rat) ≤ ⌊q⌋ := by exact_mod_cast Int.floor_nonneg.mpr (not_lt.mp hneg)
          refine ⟨⌊q⌋, by simp [Number.truncate, hneg, hfloor], ?_, ?_⟩ <;>
            rw [abs_of_nonneg hpos, abs_of_nonneg (not_lt.mp hneg)] <;> linarith
      have hof : ofNumber (.finite q) = ofMilliseconds t := by
        rw [ofNumber, ht]
        simp
      rw [hof] at h ⊢
      rw [ofMilliseconds] at h ⊢
      split at h
      · rename_i hrange
        rw [Bool.and_eq_true, decide_eq_true_eq, decide_eq_true_eq] at hrange
        refine ⟨q, rfl, ?_, t, if_pos (by simpa using hrange), hrange.1, hrange.2⟩
        have habs : |(t : Rat)| ≤ 8640000000000000 := by
          rw [abs_le]
          constructor
          · exact_mod_cast hrange.1
          · exact_mod_cast hrange.2
        linarith
      · exact absurd rfl h

namespace Cache

variable {signature : String} {now : Number}

theorem isIdChar_of_isPlain {c : Char} (h : Number.IsPlain c) : isIdChar c = true := by
  rcases h with h | rfl | rfl
  · simp [isIdChar, Char.isAlphanum, h]
  · rfl
  · rfl

/-- The seconds in an id have no characters that an id cannot have. -/
theorem isIdChar_seconds (h : Timestamp.ofNumber now ≠ .invalid) :
    ∀ c ∈ (now / 1000).floor.text.toList, isIdChar c = true := by
  obtain ⟨q, rfl, hq, -⟩ := Timestamp.ofNumber_bound h
  have hthousand : (1000 : Number) = .finite 1000 := Number.ofNat_of_le (by decide)
  have hdiv : Number.finite q / 1000 = .ofRat (q / 1000) := by
    rw [hthousand]
    change Number.div (.finite q) (.finite 1000) = _
    rw [Number.div, if_neg (by norm_num)]
  rw [hdiv]
  cases hy : Number.ofRat (q / 1000) with
  | nan => exact List.all_iff_forall_prop.mp (by decide)
  | infinite negative => cases negative <;> exact List.all_iff_forall_prop.mp (by decide)
  | finite y =>
      have hbound : |y| ≤ 2 * |q / 1000| := Number.abs_le_two_mul_of_ofRat hy
      rw [abs_div, abs_of_pos (show (0 : Rat) < 1000 by norm_num)] at hbound
      have hfloor : y.floor = ⌊y⌋ := rfl
      have hsmall : |(⌊y⌋ : Rat)| ≤ 2 ^ 53 := by
        have hle := Int.floor_le y
        have hlt := Int.lt_floor_add_one y
        rw [abs_le] at hbound ⊢
        constructor <;> linarith
      have hrounded : Number.ofRat (⌊y⌋ : Rat) = .finite (⌊y⌋ : Rat) := Number.ofRat_of_int hsmall
      intro c hc
      rw [Number.floor, hfloor] at hc
      refine isIdChar_of_isPlain (Number.isPlain_of_mem_text hrounded ?_ ?_ hc)
      · by_cases hzero : ⌊y⌋ = 0
        · exact .inl (by rw [hzero, Int.cast_zero])
        · exact .inr (by exact_mod_cast Int.one_le_abs hzero)
      · exact hsmall.trans (by norm_num)

theorem isSafeId_numberedId (hd : Signature.IsDigest signature)
    (h : Timestamp.ofNumber now ≠ .invalid) (n : Nat) :
    isSafeId (numberedId (baseId signature now) n) = true := by
  have hdigit : ∀ c : Char, c.isDigit = true → isIdChar c = true := fun c hc =>
    isIdChar_of_isPlain (.inl hc)
  have hdigest : ∀ c ∈ signature.toList, isIdChar c = true := by
    have hletters : ∀ c ∈ "abcdef".toList, isIdChar c = true :=
      List.all_iff_forall_prop.mp (by decide)
    exact fun c hc => (hd.digits c hc).elim (hdigit c) (hletters c)
  have hbase : ∀ c ∈ (baseId signature now).toList, isIdChar c = true := by
    have hstart : ∀ c ∈ "build_".toList, isIdChar c = true :=
      List.all_iff_forall_prop.mp (by decide)
    intro c hc
    simp only [baseId, String.toList_append, List.mem_append, String.toList_ofList] at hc
    rcases hc with ((hc | hc) | hc) | hc
    · exact hstart c hc
    · exact hdigest c (List.mem_of_mem_take hc)
    · rw [List.mem_singleton.mp hc]
      decide
    · exact isIdChar_seconds h c hc
  have hall : ∀ c ∈ (numberedId (baseId signature now) n).toList, isIdChar c = true := by
    intro c hc
    rw [numberedId] at hc
    split at hc
    · exact hbase c hc
    · rw [Nat.toString_eq_ofList_toDigits] at hc
      simp only [String.toList_append, List.mem_append, String.toList_ofList] at hc
      rcases hc with (hc | hc) | hc
      · exact hbase c hc
      · rw [List.mem_singleton.mp hc]
        decide
      · exact hdigit c (Nat.isDigit_of_mem_toDigits (by decide) (by decide) hc)
  obtain ⟨hne, hdot, hdots, -⟩ := ((isId_baseId hd now).numbered n).isName
  rw [isSafeId, List.all_eq_true.mpr hall]
  simp [hne, hdot, hdots]

theorem Filed.restorable {e : Entry} (h : Filed e) : Document.Restorable e := by
  obtain ⟨now, n, hnow, hid⟩ := h.id
  have hdated := h.dated
  rw [hnow] at hdated
  obtain ⟨-, -, -, ms, hms, hlow, hhigh⟩ := Timestamp.ofNumber_bound hdated
  refine ⟨⟨?_, ?_⟩, ?_, ⟨ms, hnow.trans hms, hlow, hhigh⟩, h.size⟩
  · have hlong := h.digest.length
    rw [Json.arrayIndex?]
    simp only
    rw [if_pos]
    simp [hlong]
  · intro heq
    have hdigits := h.digest.digits
    rw [heq] at hdigits
    exact absurd (hdigits '_' (by decide)) (by decide)
  · rw [hid]
    exact isSafeId_numberedId h.digest hdated n

/-- What is read from the record of an entry of a cache could be its entry, too. -/
theorem Filed.restored {e : Entry} (h : Filed e) : Filed (Document.restored e) := by
  refine ⟨h.digest, h.dated, h.id, ?_⟩
  rw [Document.restored, Document.restoredSize]
  split
  · exact h.size
  · exact ⟨0, rfl⟩

end Cache

end ScriptPack

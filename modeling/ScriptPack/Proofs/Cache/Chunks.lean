import ScriptPack.Cache.Signature

/-!
Files that are hashed in chunks. However much the system brings with each read, what the loop takes
in are consecutive pieces of the file, which make up all of it; what earlier reads have left in the
buffer is never among them.
-/

namespace ScriptPack

namespace Signature

variable {σ τ : Type} {update : σ → Bytes → σ} {update' : τ → Bytes → τ} {granted : Nat → Nat}
  {reader : Reader} {turn : Nat}

theorem Reader.count_le (reader : Reader) (n : Nat) :
    reader.count n ≤ n ∧ reader.count n ≤ chunkSize ∧ reader.count n ≤ reader.ahead.length := by
  rw [count]
  omega

/-- The part of the buffer that a read fills has the next bytes of the file. -/
theorem Reader.take_buffer_read (reader : Reader) (n : Nat) :
    (reader.read n).buffer.take (reader.count n) = reader.ahead.take (reader.count n) :=
  List.take_left' (List.length_take_of_le (reader.count_le n).2.2)

theorem feed_of_count_eq_zero (h : reader.count (granted turn) = 0) (state : σ) :
    feed update granted turn state reader = state := by
  rw [feed, if_pos h]

theorem feed_of_count_ne_zero (h : reader.count (granted turn) ≠ 0) (state : σ) :
    feed update granted turn state reader = feed update granted (turn + 1)
      (update state (reader.ahead.take (reader.count (granted turn))))
      (reader.read (granted turn)) := by
  rw [feed, if_neg h]
  simp only [reader.take_buffer_read]

/-- The loop reads the same whatever is done with the pieces. -/
theorem feed_map (f : σ → τ) (hf : ∀ state piece, f (update state piece) = update' (f state) piece)
    (state : σ) : f (feed update granted turn state reader) =
      feed update' granted turn (f state) reader := by
  induction hlength : reader.ahead.length using Nat.strongRecOn
    generalizing turn state reader with
  | _ length ih =>
      by_cases hcount : reader.count (granted turn) = 0
      · rw [feed_of_count_eq_zero hcount, feed_of_count_eq_zero hcount]
      · rw [feed_of_count_ne_zero hcount, feed_of_count_ne_zero hcount, ← hf]
        exact ih _ (hlength ▸ Reader.length_ahead_read hcount) _ rfl

/-- The pieces of the file in the order in which they are taken in. -/
def pieces (granted : Nat → Nat) (turn : Nat) (reader : Reader) : List Bytes :=
  feed (fun pieces piece => pieces ++ [piece]) granted turn [] reader

theorem feed_eq_foldl (state : σ) :
    feed update granted turn state reader = (pieces granted turn reader).foldl update state :=
  (feed_map (fun pieces : List Bytes => pieces.foldl update state)
    (fun pieces piece => by simp) []).symm

theorem pieces_of_count_ne_zero (h : reader.count (granted turn) ≠ 0) :
    pieces granted turn reader = reader.ahead.take (reader.count (granted turn)) ::
      pieces granted (turn + 1) (reader.read (granted turn)) := by
  rw [pieces, feed_of_count_ne_zero h]
  exact (feed_map (reader.ahead.take (reader.count (granted turn)) :: ·)
    (fun pieces piece => List.cons_append) []).symm

/-- What is read of a file is all of it, in pieces that are not empty and fit into the buffer. -/
theorem pieces_spec (h : ∀ turn, 0 < granted turn) (turn : Nat) (reader : Reader) :
    (pieces granted turn reader).flatten = reader.ahead ∧
      (∀ piece ∈ pieces granted turn reader, piece ≠ [] ∧ piece.length ≤ chunkSize) ∧
      (pieces granted turn reader).length ≤ reader.ahead.length := by
  induction hlength : reader.ahead.length using Nat.strongRecOn
    generalizing turn reader with
  | _ length ih =>
      obtain ⟨-, hchunk, hahead⟩ := reader.count_le (granted turn)
      by_cases hcount : reader.count (granted turn) = 0
      · have hnil : reader.ahead = [] := by
          rw [Reader.count] at hcount
          have hgranted := h turn
          have hsize : 0 < chunkSize := by decide
          exact List.eq_nil_of_length_eq_zero (by omega)
        have hnone : pieces granted turn reader = [] := feed_of_count_eq_zero hcount []
        rw [hnone, hnil]
        exact ⟨rfl, fun piece hmem => absurd hmem List.not_mem_nil, Nat.zero_le _⟩
      · have hless := Reader.length_ahead_read hcount
        obtain ⟨hflatten, hpieces, hturns⟩ := ih _ (hlength ▸ hless) (turn + 1) _ rfl
        have hpiece : (reader.ahead.take (reader.count (granted turn))).length =
            reader.count (granted turn) := List.length_take_of_le hahead
        rw [pieces_of_count_ne_zero hcount]
        refine ⟨?_, fun piece hmem => ?_, ?_⟩
        · rw [List.flatten_cons, hflatten]
          exact List.take_append_drop _ _
        · rcases List.mem_cons.mp hmem with rfl | hmem
          · exact ⟨List.ne_nil_of_length_pos (by omega), by omega⟩
          · exact hpieces piece hmem
        · rw [List.length_cons]
          omega

theorem foldl_update (hasher : Hasher) (pieces : List Bytes) :
    pieces.foldl Hasher.update hasher = hasher.update pieces.flatten :=
  List.foldl_flatten.symm

theorem digestBy_eq (h : ∀ turn, 0 < granted turn) (content : Bytes) :
    digestBy granted content = sha256 content := by
  rw [digestBy, feed_eq_foldl, foldl_update, (pieces_spec h 0 _).1]
  rfl

/-- Reading a file in chunks makes no difference for its digest. -/
theorem digestOf_eq (content : Bytes) : digestOf content = sha256 content :=
  digestBy_eq (fun _ => by decide) content

/-- However much the reads bring, as long as they bring something before the end of the file, the
loop ends after no more turns than there are bytes. It takes in each byte of the file once and in
order, whatever the bytes are for, and the digest is that of the whole file. -/
theorem hashes_whole_file (h : ∀ turn, 0 < granted turn) (content : Bytes) :
    (pieces granted 0 (.opened content)).flatten = content ∧
      (∀ piece ∈ pieces granted 0 (.opened content), piece ≠ [] ∧ piece.length ≤ chunkSize) ∧
      (pieces granted 0 (.opened content)).length ≤ content.length ∧
      (∀ (σ : Type) (update : σ → Bytes → σ) (state : σ),
        feed update granted 0 state (.opened content) =
          (pieces granted 0 (.opened content)).foldl update state) ∧
      digestBy granted content = sha256 content := by
  obtain ⟨hflatten, hpieces, hturns⟩ := pieces_spec h 0 (.opened content)
  exact ⟨hflatten, hpieces, hturns, fun σ update state => feed_eq_foldl state, digestBy_eq h content⟩

/-- Short reads, behind the first of which the buffer still has bytes that were taken in before. -/
theorem hashes_whole_file_short_reads :
    (∀ turn, 0 < (fun turn => if turn = 0 then 3 else 1) turn) ∧
      pieces (fun turn => if turn = 0 then 3 else 1) 0 (.opened [1, 2, 3, 4, 5]) =
        [[1, 2, 3], [4], [5]] ∧
      digestBy (fun turn => if turn = 0 then 3 else 1) [1, 2, 3, 4, 5] = sha256 [1, 2, 3, 4, 5] := by
  have hgranted : ∀ turn, 0 < (fun turn => if turn = 0 then 3 else 1) turn := by
    intro turn
    simp only
    split <;> decide
  obtain ⟨-, -, -, -, hdigest⟩ := hashes_whole_file hgranted [1, 2, 3, 4, 5]
  exact ⟨hgranted, by decide +kernel, hdigest⟩

end Signature

end ScriptPack

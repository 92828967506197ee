import ScriptPack.Text.Utf8

/-!
Text as bytes and back. A character is read back from its bytes: the first one tells how many follow
and in which range the second one is, and each of those adds six bits.
-/

namespace ScriptPack.Text.Utf8

variable {found : List Char} {rest : List UInt8} {c : Char} {n : Nat} {p : Pending}

theorem toNat_ofNat (h : n < 256) : (UInt8.ofNat n).toNat = n := by
  rw [UInt8.toNat_ofNat']
  omega

theorem decodeFrom_begin {b : UInt8} (h : begin b = (none, p)) :
    decodeFrom found .none (b :: rest) = decodeFrom found p rest := by
  rw [decodeFrom]
  simp [Pending.none, h]

/-- A byte with six more bits of a character. -/
theorem decodeFrom_next (hn : n < 64) (hm : p.missing ≠ 0) (hlow : p.low.toNat ≤ n + 128)
    (hhigh : n + 128 ≤ p.high.toNat) :
    decodeFrom found p (UInt8.ofNat (n + 128) :: rest) =
      if p.missing = 1 then decodeFrom (Char.ofNat (p.bits * 64 + n) :: found) .none rest
      else decodeFrom found ⟨p.missing - 1, 0x80, 0xbf, p.bits * 64 + n⟩ rest := by
  have hbyte : (UInt8.ofNat (n + 128)).toNat = n + 128 := toNat_ofNat (by omega)
  have hrange : p.low ≤ UInt8.ofNat (n + 128) ∧ UInt8.ofNat (n + 128) ≤ p.high := by
    rw [UInt8.le_iff_toNat_le, UInt8.le_iff_toNat_le, hbyte]
    exact ⟨hlow, hhigh⟩
  have hgoes : (p.missing != 0 && decide (p.low ≤ UInt8.ofNat (n + 128)) &&
      decide (UInt8.ofNat (n + 128) ≤ p.high)) = true := by
    rw [Bool.and_eq_true, Bool.and_eq_true, bne_iff_ne, decide_eq_true_eq, decide_eq_true_eq]
    exact ⟨⟨hm, hrange.1⟩, hrange.2⟩
  rw [decodeFrom, if_pos hgoes]
  simp only [hbyte, beq_iff_eq, Nat.add_sub_cancel]

theorem decodeFrom_middle {low high : UInt8} {missing bits : Nat} (hn : n < 64)
    (hlow : low.toNat ≤ n + 128) (hhigh : n + 128 ≤ high.toNat) :
    decodeFrom found ⟨missing + 2, low, high, bits⟩ (UInt8.ofNat (n + 128) :: rest) =
      decodeFrom found ⟨missing + 1, 0x80, 0xbf, bits * 64 + n⟩ rest := by
  rw [decodeFrom_next hn (Nat.succ_ne_zero _) hlow hhigh, if_neg (by simp)]
  rfl

theorem decodeFrom_last {low high : UInt8} {bits : Nat} (hn : n < 64)
    (hlow : low.toNat ≤ n + 128) (hhigh : n + 128 ≤ high.toNat) :
    decodeFrom found ⟨1, low, high, bits⟩ (UInt8.ofNat (n + 128) :: rest) =
      decodeFrom (Char.ofNat (bits * 64 + n) :: found) .none rest := by
  rw [decodeFrom_next hn Nat.one_ne_zero hlow hhigh, if_pos rfl]

/-- What a first byte for two, three or four bytes asks for. -/
theorem begin_two (hn : 0xc2 ≤ n) (hn' : n ≤ 0xdf) :
    begin (UInt8.ofNat n) = (none, ⟨1, 0x80, 0xbf, n - 0xc0⟩) := by
  simp only [begin, toNat_ofNat (show n < 256 by omega)]
  rw [if_neg (by omega), if_pos (by simp; omega)]

theorem begin_three (hn : 0xe0 ≤ n) (hn' : n ≤ 0xef) :
    begin (UInt8.ofNat n) = (none, ⟨2, if n = 0xe0 then 0xa0 else 0x80,
      if n = 0xed then 0x9f else 0xbf, n - 0xe0⟩) := by
  simp only [begin, toNat_ofNat (show n < 256 by omega)]
  rw [if_neg (by omega), if_neg (by simp; omega)]
  by_cases h₀ : n = 0xe0
  · subst h₀
    rfl
  · by_cases hd : n = 0xed
    · subst hd
      rfl
    · rw [if_neg (by simpa using h₀), if_neg (by simpa using hd), if_pos (by simp; omega), if_neg h₀,
        if_neg hd]

theorem begin_four (hn : 0xf0 ≤ n) (hn' : n ≤ 0xf4) :
    begin (UInt8.ofNat n) = (none, ⟨3, if n = 0xf0 then 0x90 else 0x80,
      if n = 0xf4 then 0x8f else 0xbf, n - 0xf0⟩) := by
  have hall : ∀ k < 5, begin (UInt8.ofNat (0xf0 + k)) = (none, ⟨3, if 0xf0 + k = 0xf0 then 0x90
      else 0x80, if 0xf0 + k = 0xf4 then 0x8f else 0xbf, 0xf0 + k - 0xf0⟩) := by
    intro k hk
    match k, hk with
    | 0, _ => rfl
    | 1, _ => rfl
    | 2, _ => rfl
    | 3, _ => rfl
    | 4, _ => rfl
  obtain ⟨k, rfl⟩ := Nat.exists_eq_add_of_le hn
  exact hall k (by omega)

/-- A character is read back from its bytes. -/
theorem decodeFrom_utf8EncodeChar (c : Char) (found : List Char) (rest : List UInt8) :
    decodeFrom found .none (String.utf8EncodeChar c ++ rest) = decodeFrom (c :: found) .none rest := by
  have hvalid : c.val.toNat < 0xd800 ∨ 0xdfff < c.val.toNat ∧ c.val.toNat < 0x110000 := c.valid
  have hback (bits : Nat) (hb : bits = c.val.toNat) : Char.ofNat bits = c := by
    rw [hb]
    exact Char.ofNat_toNat c
  rw [String.utf8EncodeChar]
  generalize hv : c.val.toNat = v at hvalid hback
  split
  · have hb : begin (UInt8.ofNat v) = (some c, .none) := by
      simp only [begin, toNat_ofNat (show v < 256 by omega)]
      rw [if_pos (by omega), hback v rfl]
    rw [List.singleton_append, decodeFrom]
    simp [Pending.none, hb]
  · split
    · have hb := begin_two (n := v / 64 % 32 + 192) (by omega) (by omega)
      rw [List.cons_append, List.cons_append, List.nil_append, decodeFrom_begin hb,
        decodeFrom_last (by omega) (by simp) (by simp; omega), hback _ (by omega)]
    · split
      · have hb := begin_three (n := v / 4096 % 16 + 224) (by omega) (by omega)
        rw [List.cons_append, List.cons_append, List.cons_append, List.nil_append,
          decodeFrom_begin hb, decodeFrom_middle (by omega) ?_ ?_,
          decodeFrom_last (by omega) (by simp) (by simp; omega), hback _ (by omega)]
        · split
          · show 160 ≤ _
            omega
          · show 128 ≤ _
            omega
        · split
          · show _ ≤ 159
            omega
          · show _ ≤ 191
            omega
      · have hb := begin_four (n := v / 262144 % 8 + 240) (by omega) (by omega)
        rw [List.cons_append, List.cons_append, List.cons_append, List.cons_append, List.nil_append,
          decodeFrom_begin hb, decodeFrom_middle (by omega) ?_ ?_,
          decodeFrom_middle (by omega) (by simp) (by simp; omega),
          decodeFrom_last (by omega) (by simp) (by simp; omega), hback _ (by omega)]
        · split
          · show 144 ≤ _
            omega
          · show 128 ≤ _
            omega
        · split
          · show _ ≤ 143
            omega
          · show _ ≤ 191
            omega

/-- A text is read back from its encoding. -/
theorem decode_encode (text : String) : decode (encode text) = text.toList := by
  have hall (chars found : List Char) :
      decodeFrom found .none (chars.flatMap String.utf8EncodeChar) = found.reverse ++ chars := by
    induction chars generalizing found with
    | nil => simp [decodeFrom, Pending.none]
    | cons c chars ih =>
        rw [List.flatMap_cons, decodeFrom_utf8EncodeChar, ih, List.reverse_cons, List.append_assoc]
        rfl
  exact hall text.toList []

end ScriptPack.Text.Utf8

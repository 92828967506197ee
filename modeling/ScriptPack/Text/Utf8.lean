/-!
Text as bytes. Every text has an encoding; bytes that encode no text are read all the same, with one
replacement character for every longest stretch that begins a character and cannot end it.
-/

namespace ScriptPack.Text.Utf8

def encode (text : String) : List UInt8 := text.toList.flatMap String.utf8EncodeChar

/-- A character of which some bytes are read: how many are missing, the range of the next one, and
the bits so far. -/
structure Pending where
  missing : Nat
  low : UInt8
  high : UInt8
  bits : Nat

def Pending.none : Pending := ⟨0, 0x80, 0xbf, 0⟩

/-- What a byte that begins a character leads to: the character, or what has to follow. -/
def begin (b : UInt8) : Option Char × Pending :=
  let n := b.toNat
  if n < 0x80 then (some (Char.ofNat n), .none)
  else if 0xc2 ≤ n && n ≤ 0xdf then (none, ⟨1, 0x80, 0xbf, n - 0xc0⟩)
  else if n == 0xe0 then (none, ⟨2, 0xa0, 0xbf, 0⟩)
  else if n == 0xed then (none, ⟨2, 0x80, 0x9f, n - 0xe0⟩)
  else if 0xe1 ≤ n && n ≤ 0xef then (none, ⟨2, 0x80, 0xbf, n - 0xe0⟩)
  else if n == 0xf0 then (none, ⟨3, 0x90, 0xbf, 0⟩)
  else if 0xf1 ≤ n && n ≤ 0xf3 then (none, ⟨3, 0x80, 0xbf, n - 0xf0⟩)
  else if n == 0xf4 then (none, ⟨3, 0x80, 0x8f, n - 0xf0⟩)
  else (some '\ufffd', .none)

/-- Goes on reading; `found` holds the characters so far, the last one first. -/
def decodeFrom (found : List Char) (p : Pending) : List UInt8 → List Char
  | [] => (if p.missing == 0 then found else '\ufffd' :: found).reverse
  | b :: rest =>
    if p.missing != 0 && p.low ≤ b && b ≤ p.high then
      let bits := p.bits * 64 + (b.toNat - 0x80)
      if p.missing == 1 then decodeFrom (Char.ofNat bits :: found) .none rest
      else decodeFrom found ⟨p.missing - 1, 0x80, 0xbf, bits⟩ rest
    else
      let found := if p.missing == 0 then found else '\ufffd' :: found
      match begin b with
      | (some c, p) => decodeFrom (c :: found) p rest
      | (none, p) => decodeFrom found p rest

def decode (bytes : List UInt8) : List Char := decodeFrom [] .none bytes

end ScriptPack.Text.Utf8

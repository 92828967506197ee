/-!
The SHA-256 digest. A hasher takes in bytes one at a time and works on every 64 of them, so it does
not matter in which pieces the bytes arrive.
-/

namespace ScriptPack

namespace Sha256

abbrev Words := List UInt32

def roundConstants : Words :=
  [0x428a2f98, 0x71374491, 0xb5c0fbcf, 0xe9b5dba5, 0x3956c25b, 0x59f111f1, 0x923f82a4, 0xab1c5ed5,
    0xd807aa98, 0x12835b01, 0x243185be, 0x550c7dc3, 0x72be5d74, 0x80deb1fe, 0x9bdc06a7, 0xc19bf174,
    0xe49b69c1, 0xefbe4786, 0x0fc19dc6, 0x240ca1cc, 0x2de92c6f, 0x4a7484aa, 0x5cb0a9dc, 0x76f988da,
    0x983e5152, 0xa831c66d, 0xb00327c8, 0xbf597fc7, 0xc6e00bf3, 0xd5a79147, 0x06ca6351, 0x14292967,
    0x27b70a85, 0x2e1b2138, 0x4d2c6dfc, 0x53380d13, 0x650a7354, 0x766a0abb, 0x81c2c92e, 0x92722c85,
    0xa2bfe8a1, 0xa81a664b, 0xc24b8b70, 0xc76c51a3, 0xd192e819, 0xd6990624, 0xf40e3585, 0x106aa070,
    0x19a4c116, 0x1e376c08, 0x2748774c, 0x34b0bcb5, 0x391c0cb3, 0x4ed8aa4a, 0x5b9cca4f, 0x682e6ff3,
    0x748f82ee, 0x78a5636f, 0x84c87814, 0x8cc70208, 0x90befffa, 0xa4506ceb, 0xbef9a3f7, 0xc67178f2]

structure Registers where
  a : UInt32
  b : UInt32
  c : UInt32
  d : UInt32
  e : UInt32
  f : UInt32
  g : UInt32
  h : UInt32
  deriving DecidableEq

def initial : Registers :=
  ⟨0x6a09e667, 0xbb67ae85, 0x3c6ef372, 0xa54ff53a, 0x510e527f, 0x9b05688c, 0x1f83d9ab, 0x5be0cd19⟩

def rotate (x n : UInt32) : UInt32 := (x >>> n) ||| (x <<< (32 - n))

def round (r : Registers) (constant word : UInt32) : Registers :=
  let s1 := rotate r.e 6 ^^^ rotate r.e 11 ^^^ rotate r.e 25
  let choice := (r.e &&& r.f) ^^^ (~~~r.e &&& r.g)
  let t1 := r.h + s1 + choice + constant + word
  let s0 := rotate r.a 2 ^^^ rotate r.a 13 ^^^ rotate r.a 22
  let majority := (r.a &&& r.b) ^^^ (r.a &&& r.c) ^^^ (r.b &&& r.c)
  ⟨t1 + s0 + majority, r.a, r.b, r.c, r.d + t1, r.e, r.f, r.g⟩

def wordsOf : List UInt8 → Words
  | a :: b :: c :: d :: rest =>
    (a.toUInt32 <<< 24 ||| b.toUInt32 <<< 16 ||| c.toUInt32 <<< 8 ||| d.toUInt32) :: wordsOf rest
  | _ => []

/-- The word that follows sixteen words of the schedule. -/
def nextWord (window : Words) : UInt32 :=
  match window with
  | [w0, w1, _, _, _, _, _, _, _, w9, _, _, _, _, w14, _] =>
    let s0 := rotate w1 7 ^^^ rotate w1 18 ^^^ (w1 >>> 3)
    let s1 := rotate w14 17 ^^^ rotate w14 19 ^^^ (w14 >>> 10)
    w0 + s0 + w9 + s1
  | _ => 0

/-- Works through the rounds, with the next sixteen words of the schedule at hand. -/
def rounds (r : Registers) (window : Words) : Words → Registers
  | [] => r
  | constant :: rest =>
    rounds (round r constant (window.head?.getD 0)) (window.tail ++ [nextWord window]) rest

def compress (r : Registers) (block : List UInt8) : Registers :=
  let s := rounds r (wordsOf block) roundConstants
  ⟨r.a + s.a, r.b + s.b, r.c + s.c, r.d + s.d, r.e + s.e, r.f + s.f, r.g + s.g, r.h + s.h⟩

def hexDigits (x : UInt32) : List Char :=
  let digits := Nat.toDigits 16 x.toNat
  List.replicate (8 - digits.length) '0' ++ digits

end Sha256

/-- A digest in the making: the bytes of the block at hand are kept last one first. -/
structure Hasher where
  registers : Sha256.Registers
  block : List UInt8
  filled : Nat
  total : Nat
  deriving DecidableEq

namespace Hasher

def empty : Hasher := ⟨Sha256.initial, [], 0, 0⟩

def feed (h : Hasher) (b : UInt8) : Hasher :=
  if h.filled == 63 then
    ⟨Sha256.compress h.registers (b :: h.block).reverse, [], 0, h.total + 1⟩
  else ⟨h.registers, b :: h.block, h.filled + 1, h.total + 1⟩

def update (h : Hasher) (bytes : List UInt8) : Hasher := bytes.foldl feed h

/-- The bytes that end a message: a one bit, zeros up to a full block, and the length in bits. -/
def padding (total : Nat) : List UInt8 :=
  0x80 :: (List.replicate ((119 - total % 64) % 64) (0 : UInt8)
    ++ (List.range 8).map fun i => UInt8.ofNat ((8 * total) >>> (8 * (7 - i))))

/-- The digest in hexadecimal digits. -/
def digest (h : Hasher) : String :=
  let r := (h.update (padding h.total)).registers
  String.ofList ([r.a, r.b, r.c, r.d, r.e, r.f, r.g, r.h].flatMap Sha256.hexDigits)

end Hasher

/-- The SHA-256 digest of some bytes, in hexadecimal digits. -/
def sha256 (bytes : List UInt8) : String := (Hasher.empty.update bytes).digest

end ScriptPack

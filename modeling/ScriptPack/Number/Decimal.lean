import ScriptPack.Number.Binary64

/-!
Numbers as decimal text. A number is written with the fewest digits that read back as the same
number, and of those texts the nearest one. It is written positionally from 10⁻⁶ up to 10²¹ and with
an exponent outside.
-/

namespace ScriptPack.Number

def powerOfTen (e : Int) : Rat :=
  if 0 ≤ e then (Nat.pow 10 e.toNat : Rat) else mkRat 1 (Nat.pow 10 (-e).toNat)

/-- The exponent of the largest power of ten that is at most the positive number `q`. -/
def decimalExponent (q : Rat) : Int :=
  let digits (n : Nat) : Int := (Nat.toDigits 10 n).length
  let guess := digits q.num.natAbs - digits q.den
  if q < powerOfTen guess then guess - 1 else guess

/-- Whether a rational rounds to the positive finite number `q`. -/
def readsBack (q r : Rat) : Bool := ofRat r == finite q

/-- Of the two neighbours of `q` on the grid of multiples of `10 ^ e`, the nearest that reads back,
as a multiple. -/
def onGrid? (q : Rat) (e : Int) : Option Nat :=
  let scaled := q / powerOfTen e
  let low := scaled.floor
  let candidates := [low, low + 1].filter fun (c : Int) => readsBack q (c * powerOfTen e)
  match candidates with
  | [] => none
  | [c] => some c.toNat
  | _ => some (roundHalfEven scaled).toNat

/-- Significant digits of a positive number as a natural number, and the exponent of the last one.
-/
structure Digits where
  digits : Nat
  exponent : Int
  deriving DecidableEq

def shortestFrom (q : Rat) (leading : Int) : Nat → Nat → Digits
  | 0, count => ⟨(roundHalfEven (q / powerOfTen (leading - count))).toNat, leading - count⟩
  | fuel + 1, count =>
    match onGrid? q (leading - count) with
    | some digits => ⟨digits, leading - count⟩
    | none => shortestFrom q leading fuel (count + 1)

/-- The shortest digits that read back as the positive number `q`; seventeen are always enough. -/
def shortest (q : Rat) : Digits := shortestFrom q (decimalExponent q) 17 0

/-- Writes the digits of a positive number whose first digit stands for `10 ^ (point - 1)`. -/
def layOut (digits : List Char) (point : Int) : List Char :=
  let count : Int := digits.length
  if count ≤ point && point ≤ 21 then digits ++ List.replicate (point - count).toNat '0'
  else if 0 < point && point ≤ 21 then
    digits.take point.toNat ++ '.' :: digits.drop point.toNat
  else if -6 < point && point ≤ 0 then
    '0' :: '.' :: (List.replicate (-point).toNat '0' ++ digits)
  else
    let exponent := point - 1
    let tail := 'e' :: (if exponent < 0 then '-' else '+') :: Nat.toDigits 10 exponent.natAbs
    match digits with
    | [] => tail
    | [d] => d :: tail
    | d :: rest => d :: '.' :: (rest ++ tail)

def positiveText (q : Rat) : List Char :=
  let found := shortest q
  let digits := Nat.toDigits 10 found.digits
  let significant := (digits.reverse.dropWhile (· == '0')).reverse
  layOut significant (found.exponent + digits.length)

/-- The text of a number. -/
def text : Number → String
  | nan => "NaN"
  | infinite negative => if negative then "-Infinity" else "Infinity"
  | finite q =>
    if q = 0 then "0"
    else if q < 0 then String.ofList ('-' :: positiveText (-q))
    else String.ofList (positiveText q)

/-- A nonnegative number with a fixed number of decimal places; a half is rounded up. -/
def fixed (places : Nat) (q : Rat) : String :=
  let scaled := (q * powerOfTen places + 1 / 2).floor.toNat
  let digits := Nat.toDigits 10 scaled
  let padded := List.replicate (places + 1 - digits.length) '0' ++ digits
  let whole := padded.length - places
  String.ofList
    (if places == 0 then padded else padded.take whole ++ '.' :: padded.drop whole)

/-- A number with a fixed number of decimal places, as long as it is below 10²¹. -/
def fixedText (places : Nat) : Number → String
  | finite q =>
    if (Nat.pow 10 21 : Rat) ≤ q.abs then text (finite q)
    else if q < 0 then "-" ++ fixed places (-q)
    else fixed places q
  | n => n.text

/-- The number nearest to `digits · 10 ^ exponent`. Exponents beyond all finite numbers are cut off
before any power is computed. -/
def ofDigits (negative : Bool) (digits : Nat) (exponent : Int) : Number :=
  let size : Int := (Nat.toDigits 10 digits).length + exponent
  let magnitude :=
    if digits = 0 || size < -400 then finite 0
    else if 400 < size then infinite false
    else ofRat (digits * powerOfTen exponent)
  if negative then magnitude.neg else magnitude

end ScriptPack.Number

/-!
Floating-point numbers of 64 bits. A finite number is kept as the rational that it stands for; an
operation computes its exact result and rounds that once, to the nearest number and to the even one
of two. The two zeros are one number here.
-/

namespace ScriptPack

inductive Number
  | nan
  | infinite (negative : Bool)
  | finite (value : Rat)
  deriving DecidableEq

namespace Number

def powerOfTwo (e : Int) : Rat :=
  if 0 ≤ e then (Nat.pow 2 e.toNat : Rat) else mkRat 1 (Nat.pow 2 (-e).toNat)

/-- The exponent of the largest power of two that is at most the positive number `q`. -/
def binaryExponent (q : Rat) : Int :=
  let guess : Int := (q.num.natAbs.log2 : Int) - (q.den.log2 : Int)
  if q < powerOfTwo guess then guess - 1 else guess

/-- The exponent of the last place of a number near the positive number `q`. -/
def lastPlace (q : Rat) : Int := max (binaryExponent q - 52) (-1074)

/-- The nearest integer, and the even one of two. -/
def roundHalfEven (q : Rat) : Int :=
  let low := q.floor
  let part := q - low
  if part < 1 / 2 then low
  else if 1 / 2 < part then low + 1
  else if low % 2 = 0 then low else low + 1

/-- The number nearest to a rational. -/
def ofRat (q : Rat) : Number :=
  if q = 0 then finite 0
  else
    let place := powerOfTwo (lastPlace q.abs)
    let magnitude := roundHalfEven (q.abs / place) * place
    if powerOfTwo 1024 ≤ magnitude then infinite (q < 0)
    else finite (if q < 0 then -magnitude else magnitude)

def ofNat (n : Nat) : Number := ofRat (n : Rat)

def ofInt (n : Int) : Number := ofRat (n : Rat)

instance (n : Nat) : OfNat Number n := ⟨ofNat n⟩

def isFinite : Number → Bool
  | finite _ => true
  | _ => false

def isInteger : Number → Bool
  | finite q => q.den == 1
  | _ => false

/-- The sign of a number that is not NaN: negative, zero or positive. -/
def signum : Number → Int
  | nan => 0
  | infinite negative => if negative then -1 else 1
  | finite q => q.num.sign

def neg : Number → Number
  | nan => nan
  | infinite negative => infinite !negative
  | finite q => finite (-q)

def add : Number → Number → Number
  | finite a, finite b => ofRat (a + b)
  | nan, _ => nan
  | _, nan => nan
  | infinite a, infinite b => if a = b then infinite a else nan
  | infinite a, finite _ => infinite a
  | finite _, infinite b => infinite b

def sub (a b : Number) : Number := add a (neg b)

def mul : Number → Number → Number
  | finite a, finite b => ofRat (a * b)
  | nan, _ => nan
  | _, nan => nan
  | a, b => if signum a * signum b = 0 then nan else infinite (signum a * signum b < 0)

def div : Number → Number → Number
  | nan, _ => nan
  | _, nan => nan
  | infinite _, infinite _ => nan
  | finite _, infinite _ => finite 0
  | infinite a, finite b => infinite (if b < 0 then !a else a)
  | finite a, finite b =>
    if b = 0 then (if a = 0 then nan else infinite (a < 0)) else ofRat (a / b)

/-- Strictly smaller; never true of NaN. -/
def less : Number → Number → Bool
  | nan, _ => false
  | _, nan => false
  | finite a, finite b => a < b
  | infinite a, infinite b => a && !b
  | infinite a, finite _ => a
  | finite _, infinite b => !b

/-- Smaller or equal; never true of NaN. -/
def atMost (a b : Number) : Bool := less a b || (a == b && a != nan)

/-- The number without its fractional part, rounded toward zero. -/
def truncate : Number → Number
  | finite q => finite (if q < 0 then -((-q).floor : Rat) else (q.floor : Rat))
  | a => a

def floor : Number → Number
  | finite q => finite (q.floor : Rat)
  | a => a

/-- The nearest integer, and the larger one of two. -/
def roundHalfUp : Number → Number
  | finite q => finite ((q + 1 / 2).floor : Rat)
  | a => a

instance : Add Number := ⟨add⟩
instance : Sub Number := ⟨sub⟩
instance : Mul Number := ⟨mul⟩
instance : Div Number := ⟨div⟩
instance : Neg Number := ⟨neg⟩

end Number

end ScriptPack

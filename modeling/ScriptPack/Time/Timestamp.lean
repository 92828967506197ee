import ScriptPack.Number.Binary64
import ScriptPack.Time.Calendar

/-!
Moments in milliseconds since the beginning of 1970, in a range of a hundred million days to either
side, and their written form in universal time.
-/

namespace ScriptPack

inductive Timestamp
  | invalid
  | at (milliseconds : Int)
  deriving DecidableEq, Repr

namespace Timestamp

def limit : Int := 8640000000000000

def ofMilliseconds (ms : Int) : Timestamp :=
  if -limit ≤ ms && ms ≤ limit then .at ms else .invalid

/-- The moment of a number of milliseconds, without their fraction. -/
def ofNumber (n : Number) : Timestamp :=
  match n.truncate with
  | .finite q => ofMilliseconds q.num
  | _ => .invalid

def milliseconds : Timestamp → Number
  | invalid => .nan
  | .at ms => .ofInt ms

def dayLength : Int := 86400000

/-- A number with leading zeros. -/
def padded (width : Nat) (n : Nat) : List Char :=
  let digits := Nat.toDigits 10 n
  List.replicate (width - digits.length) '0' ++ digits

/-- A year with four digits, or with a sign and six digits if it has more than four or is negative.
-/
def yearText (year : Int) : List Char :=
  if 0 ≤ year && year ≤ 9999 then padded 4 year.toNat
  else (if year < 0 then '-' else '+') :: padded 6 year.natAbs

/-- The written form of a moment, such as `2026-01-01T00:00:00.000Z`. -/
def iso? : Timestamp → Option String
  | invalid => none
  | .at ms =>
    let date := Time.dateOfDay (ms / dayLength)
    let rest := (ms % dayLength).toNat
    some (String.ofList
      (yearText date.year ++ '-' :: padded 2 date.month.toNat ++ '-' :: padded 2 date.day.toNat
        ++ 'T' :: padded 2 (rest / 3600000) ++ ':' :: padded 2 (rest / 60000 % 60)
        ++ ':' :: padded 2 (rest / 1000 % 60) ++ '.' :: padded 3 (rest % 1000) ++ ['Z']))

end Timestamp

end ScriptPack

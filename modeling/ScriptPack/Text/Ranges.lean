/-!
Sets of code points written as a sorted table of bounds. A code point is in the set exactly when an
odd number of bounds lies at or below it, so a table `a, b, c, d` is the union of `[a, b)` and
`[c, d)`.
-/

namespace ScriptPack.Text

structure Ranges where
  bounds : Array Nat

namespace Ranges

/-- The number of bounds at or below `c`, given that it lies between `low` and `high`. -/
def countFrom (r : Ranges) (c low high : Nat) : Nat :=
  if low < high then
    let middle := (low + high) / 2
    if r.bounds.getD middle 0 ≤ c then countFrom r c (middle + 1) high
    else countFrom r c low middle
  else low
termination_by high - low

def contains (r : Ranges) (c : Nat) : Bool :=
  r.countFrom c 0 r.bounds.size % 2 == 1

end Ranges

end ScriptPack.Text

/-!
The order of texts by their 16-bit code units. It differs from the order by characters: a character
beyond the basic plane is written with surrogate units, which are smaller than the units from
`0xe000` on.
-/

namespace ScriptPack.Text.Utf16

def unitsOf (c : Char) : List Nat :=
  if c.toNat < 0x10000 then [c.toNat]
  else [0xd800 + (c.toNat - 0x10000) / 0x400, 0xdc00 + (c.toNat - 0x10000) % 0x400]

def units (text : String) : List Nat := text.toList.flatMap unitsOf

def lessUnits : List Nat → List Nat → Bool
  | _, [] => false
  | [], _ :: _ => true
  | a :: s, b :: t => if a == b then lessUnits s t else a < b

def less (a b : String) : Bool := lessUnits (units a) (units b)

/-- The texts in ascending order. -/
def sort (texts : List String) : List String := texts.mergeSort fun a b => !less b a

end ScriptPack.Text.Utf16

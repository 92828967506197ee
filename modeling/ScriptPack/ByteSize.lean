import ScriptPack.Number.Decimal

/-!
Sizes for people: a number of bytes in the largest unit of which there is at least one, up to
gibibytes. Bytes are written without decimal places, the other units with one.
-/

namespace ScriptPack.ByteSize

/-- Changes to larger units as long as the number is large enough. -/
def scale (size : Number) (unit : String) : List String → Number × String
  | [] => (size, unit)
  | larger :: rest =>
    if Number.atMost 1024 size then scale (size / 1024) larger rest else (size, unit)

def text (bytes : Number) : String :=
  let (size, unit) := scale bytes "B" ["KB", "MB", "GB"]
  Number.fixedText (if unit == "B" then 0 else 1) size ++ " " ++ unit

end ScriptPack.ByteSize

/-!
Laying out many short items in columns on a terminal. Columns are used where at least three of them
fit beside each other, and the items do not differ too much in width; their number makes the block
about as wide as it is high. A character counts as two and a half times as high as it is wide.
-/

namespace ScriptPack.Console

/-- The longest line on which a whole value is shown. -/
def lineLimit : Nat := 80

/-- The width of the comma and the blank between two items. -/
def gap : Nat := 2

/-- Whether so many columns are at most half a column more than the ideal number. With `w` as the
typical width, that is the widest one less 3 and less the root of what it has over the average, the
ideal number for `n` items is the root of `2.5 * n / w`. The comparison is made exact by squaring;
widths contain the gap, and a width below 1 counts as 1. -/
def isBalanced (widest total entries count columns : Nat) : Bool :=
  let side : Int := 2 * columns - 1
  let square : Int := side * side
  let excess : Int := square * (widest - 3) - 10 * count
  decide (square ≤ 10 * count) &&
    (decide (excess ≤ 0) ||
      decide (excess * excess * entries ≤ square * square * (widest * entries - total)))

/-- The number of columns for items of the given widths, at most twelve. The list has `entries`
parts, of which the last one may be a remark that stands on a line of its own. -/
def columnCount (indent entries : Nat) (widths : List Nat) : Nat :=
  let widest := widths.foldl max 0 + gap
  let total := widths.foldl (fun total width => total + (width + gap)) 0
  let fits := decide (widest * 3 + indent < lineLimit)
  if fits && (decide (5 * widest < total) || decide (widest ≤ 6 + gap)) then
    let balanced := (List.range 12).filter fun n =>
      isBalanced widest total entries widths.length (n + 1)
    min balanced.length ((lineLimit - indent) / widest)
  else 1

/-- The width of each column, with the gap. -/
def columnWidths (columns : Nat) (widths : List Nat) : List Nat :=
  (List.range columns).map fun column =>
    let own := widths.zipIdx.filter fun (_, i) => i % columns == column
    (own.map (·.1)).foldl max 0 + gap

def blanks (width : Nat) (text : List Char) : List Char := List.replicate (width - text.length) ' '

/-- One row of items in columns. Only numbers are aligned on the right. -/
def row (areNumbers : Bool) : List Nat → List (List Char) → List Char
  | _, [] => []
  | [], item :: _ => item
  | width :: _, [item] => if areNumbers then blanks (width - gap) item ++ item else item
  | width :: widths, item :: items =>
    let item := item ++ [',', ' ']
    let cell := if areNumbers then blanks width item ++ item else item ++ blanks width item
    cell ++ row areNumbers widths items

/-- Items in rows of `more + 1`. -/
def rows (areNumbers : Bool) (widths : List Nat) (more : Nat) : List (List Char) → List (List Char)
  | [] => []
  | item :: items =>
    row areNumbers widths (item :: items.take more) :: rows areNumbers widths more (items.drop more)
termination_by items => items.length
decreasing_by simp only [List.length_cons, List.length_drop]; omega

/-- The rows of items, or the items themselves if there is no use in columns. -/
def inColumns (areNumbers : Bool) (indent entries : Nat) (items : List (List Char)) :
    List (List Char) :=
  let widths := items.map List.length
  match columnCount indent entries widths with
  | 0 | 1 => items
  | more + 1 => rows areNumbers (columnWidths (more + 1) widths) more items

end ScriptPack.Console

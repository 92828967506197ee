import ScriptPack.Number.Binary64

/-!
JSON values. The fields of an object are kept in order: keys that are array indices come first, in
ascending order, and the other keys follow in the order in which they were first set.
-/

namespace ScriptPack

inductive Json
  | null
  | bool (b : Bool)
  | number (n : Number)
  | string (s : String)
  | array (items : List Json)
  | object (fields : List (String × Json))

namespace Json

/-- The array index that a key spells: a number below `2 ^ 32 - 1` without leading zeros. -/
def arrayIndex? (key : String) : Option Nat :=
  let digits := key.toList
  if digits.isEmpty || 10 < digits.length || !digits.all Char.isDigit then none
  else if digits.head? == some '0' && digits != ['0'] then none
  else
    let n := digits.foldl (fun n c => 10 * n + (c.toNat - '0'.toNat)) 0
    if n < 4294967295 then some n else none

/-- Whether a key stands in front of another one that was set earlier. -/
def overtakes (key earlier : String) : Bool :=
  match arrayIndex? key, arrayIndex? earlier with
  | some i, some j => i < j
  | some _, none => true
  | none, _ => false

end Json

/-- A table with the key order of objects. -/
abbrev Fields (α : Type) := List (String × α)

namespace Fields

variable {α β : Type}

def insertNew (key : String) (value : α) : Fields α → Fields α
  | [] => [(key, value)]
  | (k, v) :: rest =>
    if Json.overtakes key k then (key, value) :: (k, v) :: rest
    else (k, v) :: insertNew key value rest

def contains (fields : Fields α) (key : String) : Bool := fields.any (·.1 == key)

/-- Sets a key. A key that is present keeps its place. -/
def set (fields : Fields α) (key : String) (value : α) : Fields α :=
  if fields.contains key then fields.map fun (k, v) => if k == key then (k, value) else (k, v)
  else insertNew key value fields

def get? (fields : Fields α) (key : String) : Option α := fields.lookup key

def ofList (pairs : List (String × α)) : Fields α :=
  pairs.foldl (fun fields (key, value) => fields.set key value) []

end Fields

namespace Json

def get? : Json → String → Option Json
  | object fields, key => Fields.get? fields key
  | _, _ => none

def isObject : Json → Bool
  | object _ => true
  | _ => false

end Json

end ScriptPack

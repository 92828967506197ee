import ScriptPack.Json.Value
import ScriptPack.Number.Decimal

/-!
Reading JSON text. Four blank characters may stand between tokens; a key that is given twice keeps
its first place and its last value. An escape that stands for half of a surrogate pair, without the
other half, reads as the replacement character.
-/

namespace ScriptPack.Json

def isGap (c : Char) : Bool := c == ' ' || c == '\t' || c == '\n' || c == '\r'

def skipGap (text : List Char) : List Char := text.dropWhile isGap

def hexValue? (c : Char) : Option Nat :=
  if c.isDigit then some (c.toNat - '0'.toNat)
  else if 'a' ≤ c && c ≤ 'f' then some (c.toNat - 'a'.toNat + 10)
  else if 'A' ≤ c && c ≤ 'F' then some (c.toNat - 'A'.toNat + 10)
  else none

def hex4? : List Char → Option (Nat × List Char)
  | a :: b :: c :: d :: rest => do
    let a ← hexValue? a
    let b ← hexValue? b
    let c ← hexValue? c
    let d ← hexValue? d
    some (((a * 16 + b) * 16 + c) * 16 + d, rest)
  | _ => none

def isHighSurrogate (n : Nat) : Bool := 0xd800 ≤ n && n < 0xdc00

def isLowSurrogate (n : Nat) : Bool := 0xdc00 ≤ n && n < 0xe000

def replacement : Char := '\ufffd'

/-- The character of an escaped code unit, taking in a low surrogate that follows a high one. -/
def escapedUnit? (text : List Char) : Option (Char × List Char) := do
  let (n, rest) ← hex4? text
  if isHighSurrogate n then
    match rest with
    | '\\' :: 'u' :: behind =>
      match hex4? behind with
      | some (m, after) =>
        if isLowSurrogate m then
          some (Char.ofNat (0x10000 + (n - 0xd800) * 0x400 + (m - 0xdc00)), after)
        else some (replacement, rest)
      | none => some (replacement, rest)
    | _ => some (replacement, rest)
  else if isLowSurrogate n then some (replacement, rest)
  else some (Char.ofNat n, rest)

/-- The character behind a backslash. -/
def escaped? : List Char → Option (Char × List Char)
  | '"' :: rest => some ('"', rest)
  | '\\' :: rest => some ('\\', rest)
  | '/' :: rest => some ('/', rest)
  | 'b' :: rest => some ('\x08', rest)
  | 'f' :: rest => some ('\x0c', rest)
  | 'n' :: rest => some ('\n', rest)
  | 'r' :: rest => some ('\r', rest)
  | 't' :: rest => some ('\t', rest)
  | 'u' :: rest => escapedUnit? rest
  | _ => none

/-- The rest of a string literal behind its opening quote; `found` is what came before, reversed. -/
def stringFrom? (found : List Char) : Nat → List Char → Option (String × List Char)
  | 0, _ => none
  | _, [] => none
  | fuel + 1, c :: rest =>
    if c == '"' then some (String.ofList found.reverse, rest)
    else if c == '\\' then
      match escaped? rest with
      | none => none
      | some (d, rest) => stringFrom? (d :: found) fuel rest
    else if c.toNat < 0x20 then none
    else stringFrom? (c :: found) fuel rest

def digitsOf (text : List Char) : List Char × List Char :=
  (text.takeWhile Char.isDigit, text.dropWhile Char.isDigit)

def natOf (digits : List Char) : Nat :=
  digits.foldl (fun n c => 10 * n + (c.toNat - '0'.toNat)) 0

/-- The exponent of a number, which is 0 when none is written. -/
def exponent? : List Char → Option (Int × List Char)
  | c :: rest =>
    if c == 'e' || c == 'E' then
      let (negative, rest) :=
        match rest with
        | '-' :: rest => (true, rest)
        | '+' :: rest => (false, rest)
        | rest => (false, rest)
      match digitsOf rest with
      | ([], _) => none
      | (digits, rest) =>
        let n : Int := natOf digits
        some (if negative then -n else n, rest)
    else some (0, c :: rest)
  | [] => some (0, [])

def number? (text : List Char) : Option (Number × List Char) := do
  let (negative, text) :=
    match text with
    | '-' :: rest => (true, rest)
    | rest => (false, rest)
  let (whole, rest) := digitsOf text
  if whole.isEmpty || (whole.head? == some '0' && whole.length != 1) then none
  else
    let (places, rest) ←
      match rest with
      | '.' :: rest =>
        match digitsOf rest with
        | ([], _) => none
        | found => some found
      | rest => some ([], rest)
    let (exponent, rest) ← exponent? rest
    some (.ofDigits negative (natOf (whole ++ places)) (exponent - places.length), rest)

mutual

def value? : Nat → List Char → Option (Json × List Char)
  | 0, _ => none
  | fuel + 1, text =>
    match skipGap text with
    | [] => none
    | c :: rest =>
      if c == '"' then (stringFrom? [] (rest.length + 1) rest).map fun (s, rest) => (string s, rest)
      else if c == '[' then
        match skipGap rest with
        | ']' :: rest => some (array [], rest)
        | rest => (items? fuel [] rest).map fun (items, rest) => (array items, rest)
      else if c == '\x7b' then
        match skipGap rest with
        | '\x7d' :: rest => some (object [], rest)
        | rest => (fields? fuel [] rest).map fun (fields, rest) => (object fields, rest)
      else if c == 't' && "rue".toList.isPrefixOf rest then some (bool true, rest.drop 3)
      else if c == 'f' && "alse".toList.isPrefixOf rest then some (bool false, rest.drop 4)
      else if c == 'n' && "ull".toList.isPrefixOf rest then some (null, rest.drop 3)
      else (number? (c :: rest)).map fun (n, rest) => (number n, rest)

def items? : Nat → List Json → List Char → Option (List Json × List Char)
  | 0, _, _ => none
  | fuel + 1, found, text =>
    match value? fuel text with
    | none => none
    | some (item, rest) =>
      match skipGap rest with
      | ',' :: rest => items? fuel (item :: found) rest
      | ']' :: rest => some ((item :: found).reverse, rest)
      | _ => none

def fields? : Nat → Fields Json → List Char → Option (Fields Json × List Char)
  | 0, _, _ => none
  | fuel + 1, found, text =>
    match skipGap text with
    | '"' :: rest =>
      match stringFrom? [] (rest.length + 1) rest with
      | none => none
      | some (key, rest) =>
        match skipGap rest with
        | ':' :: rest =>
          match value? fuel rest with
          | none => none
          | some (value, rest) =>
            match skipGap rest with
            | ',' :: rest => fields? fuel (found.set key value) rest
            | '\x7d' :: rest => some (found.set key value, rest)
            | _ => none
        | _ => none
    | _ => none

end

/-- The value that a JSON text stands for. Every call consumes a character or descends one level, so
twice the length of the text bounds the depth of the calls. -/
def parse? (text : String) : Option Json :=
  let chars := text.toList
  match value? (2 * chars.length + 2) chars with
  | some (value, rest) => if (skipGap rest).isEmpty then some value else none
  | none => none

end ScriptPack.Json

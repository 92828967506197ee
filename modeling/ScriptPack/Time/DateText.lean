import ScriptPack.Text.Blank
import ScriptPack.Time.Timestamp

/-!
Reading dates. The first choice is the standard form, a date with an optional time and zone. A text
that is not in this form is read leniently: numbers with colons are times, other numbers are parts
of the date, month names, halves of the day and zones are recognised by their first letters, and
words in front of the first number are skipped. Times without a zone are in universal time.
-/

namespace ScriptPack.Time.DateText

inductive Keyword
  | month (number : Int)
  | dayHalf (hours : Int)
  | zone (hours : Int)
  | timeMark
  | unknown
  deriving DecidableEq, Repr

inductive Token
  | number (value : Int) (length : Nat)
  | sign (c : Char)
  | word (keyword : Keyword) (length : Nat)
  | blank
  | other
  deriving DecidableEq, Repr

/-- The significant digits of a number that count; further ones are dropped. -/
def digitLimit : Nat := 9

def numberOf (digits : List Char) : Int :=
  ((digits.dropWhile (· == '0')).take digitLimit).foldl
    (fun n c => 10 * n + ((c.toNat : Int) - 48)) 0

/-- The keyword of the first three letters of a word; only months may be longer. -/
def keywordOf (word : List Char) : Keyword :=
  let lower (c : Char) : Char := if c.toNat < 0x80 then Char.ofNat (c.toNat ||| 0x20) else c
  let start := String.ofList ((word.take 3).map lower)
  match ["jan", "feb", "mar", "apr", "may", "jun", "jul", "aug", "sep", "oct", "nov",
      "dec"].idxOf? start with
  | some i => .month (i + 1)
  | none =>
    if 3 < word.length then .unknown
    else if start == "am" then .dayHalf 0
    else if start == "pm" then .dayHalf 12
    else if start == "t" then .timeMark
    else
      match [("ut", 0), ("utc", 0), ("z", 0), ("gmt", 0), ("cdt", -5), ("cst", -6), ("edt", -4),
        ("est", -5), ("mdt", -6), ("mst", -7), ("pdt", -7), ("pst", -8)].lookup start with
      | some hours => .zone hours
      | none => .unknown

/-- Line separators are blank for the skipping of blanks, but they do not end a word. -/
def isWordPart (c : Char) : Bool :=
  'A' ≤ c && (!Text.isBlank c || c == '\u2028' || c == '\u2029')

/-- The rest of a text behind a balanced pair of parentheses. -/
def skipParentheses : Nat → List Char → List Char
  | _, [] => []
  | depth, c :: rest =>
    let depth := if c == '(' then depth + 1 else if c == ')' then depth - 1 else depth
    if depth == 0 then rest else skipParentheses depth rest

def tokensFrom : Nat → List Char → List Token
  | 0, _ => []
  | _, [] => []
  | fuel + 1, c :: rest =>
    if c.isDigit then
      let digits := (c :: rest).takeWhile Char.isDigit
      .number (numberOf digits) digits.length :: tokensFrom fuel (rest.dropWhile Char.isDigit)
    else if [':', '-', '+', '.', ')'].contains c then .sign c :: tokensFrom fuel rest
    else if isWordPart c then
      let word := (c :: rest).takeWhile isWordPart
      .word (keywordOf word) word.length :: tokensFrom fuel (rest.dropWhile isWordPart)
    else if Text.isBlank c then .blank :: tokensFrom fuel rest
    else if c == '(' then .other :: tokensFrom fuel (skipParentheses 0 (c :: rest))
    else .other :: tokensFrom fuel rest

/-- The tokens of a text up to its first NUL character. -/
def tokens (text : String) : List Token :=
  let chars := text.toList.takeWhile (· != '\x00')
  tokensFrom chars.length chars

/-- The parts of a moment found so far. -/
structure Parts where
  /-- Up to three numbers of the date. -/
  date : List Int
  month : Option Int
  standard : Bool
  /-- Up to four numbers of the time: hours, minutes, seconds, milliseconds. -/
  time : List Int
  hourOffset : Option Int
  zoneSign : Option Int
  zoneHour : Option Int
  zoneMinute : Option Int

def Parts.empty : Parts := ⟨[], none, false, [], none, none, none, none⟩

def between (low high n : Int) : Bool := low ≤ n && n ≤ high

def isMinute (n : Int) : Bool := between 0 59 n

/-- Three digits of a fraction of a second. Of more than three digits the first nine count. -/
def milliseconds (value : Int) (length : Nat) : Int :=
  if length == 1 then value * 100
  else if length == 2 then value * 10
  else value / Int.pow 10 (min length digitLimit - 3)

namespace Parts

def addDate (p : Parts) (n : Int) : Option Parts :=
  if p.date.length < 3 then some { p with date := p.date ++ [n] } else none

def addTime (p : Parts) (n : Int) : Option Parts :=
  if p.time.length < 4 then some { p with time := p.time ++ [n] } else none

/-- Adds the last number of a time; the ones after it are zero. -/
def endTime (p : Parts) (n : Int) : Parts :=
  { p with time := (p.time ++ [n, 0, 0, 0]).take 4 }

def expectsTime (p : Parts) (n : Int) : Bool :=
  match p.time.length with
  | 1 | 2 => isMinute n
  | 3 => between 0 999 n
  | _ => false

def expectsZoneMinute (p : Parts) (n : Int) : Bool :=
  p.zoneHour.isSome && p.zoneMinute.isNone && isMinute n

def setZone (p : Parts) (hours : Int) : Parts :=
  { p with zoneSign := some (if hours < 0 then -1 else 1)
           zoneHour := some hours.natAbs
           zoneMinute := some 0 }

def isUniversal (p : Parts) : Bool := p.zoneHour == some 0 && p.zoneMinute == some 0

/-- Year, month and day. Without a month name the order is month, day, year, unless the first number
is no day; years below 100 are in the twentieth or twenty-first century. -/
def date? (p : Parts) : Option Date :=
  match p.date with
  | [] => none
  | first :: others =>
    let second := others.head?.getD 1
    let third := others.tail.head?.getD 1
    let isDay := between 1 31
    let d : Date :=
      match p.month with
      | none =>
        if p.standard || !isDay first then ⟨first, second, third⟩ else ⟨third, first, second⟩
      | some month =>
        if isDay first then ⟨second, month, first⟩ else ⟨first, month, second⟩
    let year :=
      if p.standard then d.year
      else if between 0 49 d.year then d.year + 2000
      else if between 50 99 d.year then d.year + 1900
      else d.year
    if between 1 12 d.month && isDay d.day then some { d with year } else none

/-- The milliseconds since midnight. -/
def time? (p : Parts) : Option Int :=
  match (p.time ++ [0, 0, 0, 0]).take 4 with
  | [hour, minute, second, ms] => do
    let hour ←
      match p.hourOffset with
      | none => some hour
      | some offset => if between 0 12 hour then some (hour % 12 + offset) else none
    let regular := between 0 23 hour && isMinute minute && isMinute second && between 0 999 ms
    let midnight := hour == 24 && minute == 0 && second == 0 && ms == 0
    if regular || midnight then some (((hour * 60 + minute) * 60 + second) * 1000 + ms) else none
  | _ => none

/-- The zone's distance from universal time in milliseconds. -/
def zone (p : Parts) : Int :=
  match p.zoneSign with
  | none => 0
  | some sign => sign * (p.zoneHour.getD 0 * 3600 + p.zoneMinute.getD 0 * 60) * 1000

def timestamp (p : Parts) : Timestamp :=
  match p.date?, p.time? with
  | some date, some time =>
    .ofMilliseconds (dayNumber date * Timestamp.dayLength + time - p.zone)
  | _, _ => .invalid

end Parts

/-- How far the standard form goes: to the end of the text, to tokens that are left to the lenient
reading, or to an error. -/
inductive Standard
  | complete (parts : Parts)
  | stopped (parts : Parts) (rest : List Token)
  | wrong

def isZoneZ : Token → Bool
  | .word (.zone _) 1 => true
  | _ => false

/-- The zone at the end of the standard form. -/
def standardZone (p : Parts) (rest : List Token) : Standard :=
  let signed (sign : Int) (rest : List Token) : Standard :=
    match rest with
    | .number n 4 :: rest =>
      if between 0 23 (n / 100) && isMinute (n % 100) && rest.isEmpty then
        .complete { p with zoneSign := some sign, zoneHour := some (n / 100)
                           zoneMinute := some (n % 100) }
      else .wrong
    | .number hour 2 :: .sign ':' :: .number minute 2 :: [] =>
      if between 0 23 hour && isMinute minute then
        .complete { p with zoneSign := some sign, zoneHour := some hour
                           zoneMinute := some minute }
      else .wrong
    | _ => .wrong
  match rest with
  | [] => .complete p
  | .sign '+' :: rest => signed 1 rest
  | .sign '-' :: rest => signed (-1) rest
  | token :: rest => if isZoneZ token && rest.isEmpty then .complete (p.setZone 0) else .wrong

/-- The time of the standard form; the hour 24 stands for midnight only. -/
def standardTime (p : Parts) : List Token → Standard
  | .number hour 2 :: .sign ':' :: .number minute 2 :: rest =>
    let full := hour == 24
    if !between 0 24 hour || !isMinute minute || (full && minute != 0) then .wrong
    else
      match rest with
      | .sign ':' :: .number second 2 :: rest =>
        if !isMinute second || (full && second != 0) then .wrong
        else
          match rest with
          | .sign '.' :: .number value length :: rest =>
            if full && value != 0 then .wrong
            else
              standardZone
                { p with time := [hour, minute, second, milliseconds value length] } rest
          | .sign '.' :: _ => .wrong
          | rest => standardZone { p with time := [hour, minute, second] } rest
      | .sign ':' :: _ => .wrong
      | rest => standardZone { p with time := [hour, minute] } rest
  | _ => .wrong

/-- What follows the date of the standard form. -/
def standardRest (p : Parts) : List Token → Standard
  | [] => .complete p
  | .word .timeMark _ :: rest => standardTime p rest
  | rest => .stopped p rest

def standardMonth (p : Parts) : List Token → Standard
  | .sign '-' :: rest =>
    match rest with
    | .number month 2 :: rest =>
      if !between 1 12 month then .stopped p (.number month 2 :: rest)
      else
        let p := { p with date := p.date ++ [month] }
        match rest with
        | .sign '-' :: rest =>
          match rest with
          | .number day 2 :: rest =>
            if !between 1 31 day then .stopped p (.number day 2 :: rest)
            else standardRest { p with date := p.date ++ [day] } rest
          | rest => .stopped p rest
        | rest => standardRest p rest
    | rest => .stopped p rest
  | rest => standardRest p rest

def standard (all : List Token) : Standard :=
  let signed (c : Char) (negative : Bool) (rest : List Token) : Standard :=
    match rest with
    | .number year 6 :: after =>
      if negative && year == 0 then .stopped .empty (.sign c :: after)
      else standardMonth { Parts.empty with date := [if negative then -year else year] } after
    | rest => .stopped .empty (.sign c :: rest)
  match all with
  | .sign '+' :: rest => signed '+' false rest
  | .sign '-' :: rest => signed '-' true rest
  | .number year 4 :: rest => standardMonth { Parts.empty with date := [year] } rest
  | rest => .stopped .empty rest

def skipSign (c : Char) : List Token → List Token
  | .sign d :: rest => if c == d then rest else .sign d :: rest
  | rest => rest

/-- The zone behind a sign: one or two digits are hours, three or four are hours and minutes, and
before a colon there are hours only. -/
def signedZone (p : Parts) (sign : Int) (value : Int) (length : Nat) (beforeColon : Bool) :
    Option Parts :=
  let p := { p with zoneSign := some sign }
  if beforeColon then some { p with zoneHour := some value, zoneMinute := none }
  else if length == 1 || length == 2 then
    some { p with zoneHour := some value, zoneMinute := some 0 }
  else if length == 3 || length == 4 then
    some { p with zoneHour := some (value / 100), zoneMinute := some (value % 100) }
  else none

def endsTime : List Token → Bool
  | [] => true
  | .blank :: _ => true
  | .sign c :: _ => c == '+' || c == '-'
  | token :: _ => isZoneZ token

/-- Takes in a number of the lenient form and gives the tokens left after it. -/
def lenientNumber (p : Parts) (n : Int) (rest : List Token) : Option (Parts × List Token) :=
  match rest with
  | .sign ':' :: .sign ':' :: rest =>
    if p.time.isEmpty then some ({ p with time := [n, 0] }, rest) else none
  | .sign ':' :: rest => (p.addTime n).map fun p => (p, skipSign '.' rest)
  | _ =>
    let behindDot := skipSign '.' rest
    if behindDot != rest && p.expectsTime n then
      match behindDot with
      | .number value length :: rest =>
        (p.addTime n).map fun p => (p.endTime (milliseconds value length), rest)
      | _ => none
    else if p.expectsZoneMinute n then some ({ p with zoneMinute := some n }, behindDot)
    else if p.expectsTime n then
      if endsTime behindDot then some (p.endTime n, behindDot) else none
    else (p.addDate n).map fun p => (p, skipSign '-' behindDot)

/-- Reads the remaining tokens leniently; `seen` says whether a number has been read. -/
def lenient : Nat → Parts → Bool → List Token → Option Parts
  | 0, _, _, _ => none
  | _, p, _, [] => some p
  | fuel + 1, p, seen, token :: rest =>
    match token with
    | .number n _ =>
      match lenientNumber p n rest with
      | some (p, rest) => lenient fuel p true rest
      | none => none
    | .word keyword _ =>
      let garbage : Option Parts :=
        match rest with
        | .number _ _ :: _ => none
        | rest => if seen then none else lenient fuel p seen rest
      match keyword with
      | .dayHalf hours =>
        if p.time.isEmpty then garbage
        else lenient fuel { p with hourOffset := some hours } seen rest
      | .month number => lenient fuel { p with month := some number } seen (skipSign '-' rest)
      | .zone hours => if seen then lenient fuel (p.setZone hours) seen rest else garbage
      | _ => garbage
    | .sign c =>
      let isSign := c == '+' || c == '-'
      if isSign && (p.isUniversal || !p.time.isEmpty) then
        let (value, length, rest) :=
          match rest with
          | .number value length :: rest => (value, length, rest)
          | rest => (0, 0, rest)
        let beforeColon := rest.head? == some (.sign ':')
        match signedZone p (if c == '+' then 1 else -1) value length beforeColon with
        | some p => lenient fuel p true rest
        | none => none
      else if (isSign || c == ')') && seen then none
      else lenient fuel p seen rest
    | _ => lenient fuel p seen rest

/-- The moment that a text names. -/
def read (text : String) : Timestamp :=
  match standard (tokens text) with
  | .complete p => { p with standard := true : Parts }.timestamp
  | .wrong => .invalid
  | .stopped p rest =>
    match lenient (rest.length + 1) p (!p.date.isEmpty) rest with
    | some p => p.timestamp
    | none => .invalid

end ScriptPack.Time.DateText

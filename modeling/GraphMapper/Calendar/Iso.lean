/-
The ISO 8601 text of dates and date-times.

Writing has one form per value: `YYYY-MM-DD`, then a separator, the time with a
fraction of six digits when it is not zero, and the offset when there is one,
with seconds and a fraction only when they are not zero.

Reading takes more: the date also without dashes or as a week with or without
its day, any separator, the time cut off after any part and with or without
colons, a fraction of any length (digits beyond the sixth are dropped) behind
any part, and `Z` for universal time. Three leniencies are part of the format
and easily missed: one stray character is accepted between the time and a sign,
a final NUL counts as the end of the text, and an offset whose whole seconds
are zero is universal time whatever its fraction.
-/
import GraphMapper.Calendar.DateTime
import GraphMapper.Text.Class

namespace GraphMapper.Iso

-- =============================================================== writing

def dateText (d : Date) : String :=
  Text.padded 4 d.year ++ "-" ++ Text.padded 2 d.month ++ "-"
    ++ Text.padded 2 d.day

/-- `.ffffff`, or nothing for zero. -/
def fractionText (micro : Nat) : String :=
  if micro = 0 then "" else "." ++ Text.padded 6 micro

def timeText (t : TimeOfDay) : String :=
  Text.padded 2 t.hour.val ++ ":" ++ Text.padded 2 t.minute.val ++ ":" ++
    Text.padded 2 t.second.val ++ fractionText t.micro.val

def offsetText (o : Offset) : String :=
  let n := o.micros.natAbs
  let seconds := n / 1000000
  let micro := n % 1000000
  (if o.micros < 0 then "-" else "+") ++ Text.padded 2 (seconds / 3600) ++ ":"
    ++ Text.padded 2 (seconds / 60 % 60) ++
    (if seconds % 60 = 0 && micro = 0 then ""
     else ":" ++ Text.padded 2 (seconds % 60) ++ fractionText micro)

/-- A date-time with the given separator between date and time. -/
def text (separator : Char) (t : DateTime) : String :=
  dateText t.date ++ separator.toString ++ timeText t.time ++
    (t.offset.map offsetText).getD ""

-- =============================================================== reading

def isDigit (c : Char) : Bool := '0' ≤ c && c ≤ '9'

/-- A number of exactly `n` digits, and what follows it. -/
def takeNumber : Nat → Nat → List Char → Option (Nat × List Char)
  | 0, value, cs => some (value, cs)
  | n + 1, value, c :: cs =>
    if isDigit c then takeNumber n (10 * value + (c.toNat - '0'.toNat)) cs
    else none
  | _ + 1, _, [] => none

/-- The characters as they count for places in the text: one outside ASCII
takes as many places as its UTF-8 form has octets. -/
def spread (cs : List Char) : List Char :=
  cs.flatMap fun c => if c.toNat < 0x80 then [c]
    else List.replicate c.utf8Size c

def hasAt (cs : List Char) (i : Nat) (p : Char → Bool) : Bool :=
  (cs[i]?.map p).getD false

/-- Where the date ends: its length, judged by the places of dashes and of the
week mark. A week with a dash behind it is followed by a day, or by a time when
two digits follow the dash; a week without dashes has a day when that leaves an
even number of digits for the time. -/
def dateLength? (cs : List Char) : Option Nat :=
  let n := cs.length
  if n = 7 then some 7
  else if hasAt cs 4 (· = '-') then
    if hasAt cs 5 (· = 'W') then
      if n < 8 then none
      else if hasAt cs 8 (· = '-') then
        if n = 9 then none
        else if hasAt cs 10 isDigit then some 8 else some 10
      else some 8
    else some 10
  else if hasAt cs 4 (· = 'W') then
    let stop := 7 + ((cs.drop 7).takeWhile isDigit).length
    if stop < 9 then some stop else if stop % 2 = 0 then some 7 else some 8
  else some 8

/-- What follows a dash, in a text that uses dashes; the text itself in one
that does not. -/
def afterDash? (dashes : Bool) (cs : List Char) : Option (List Char) :=
  if dashes then
    match cs with
    | '-' :: rest => some rest
    | _ => none
  else some cs

/-- The date in the first `length` places of `cs`. -/
def readDateOf (length : Nat) (cs : List Char) : Option Date := do
  let (year, rest) ← takeNumber 4 0 cs
  let dashes := hasAt rest 0 (· = '-')
  let rest ← afterDash? dashes rest
  match rest with
  | 'W' :: rest =>
    let (week, rest) ← takeNumber 2 0 rest
    if cs.length - rest.length < length then
      let rest ← afterDash? dashes rest
      let (day, _) ← takeNumber 1 0 rest
      Date.ofWeek? year week day
    else Date.ofWeek? year week 1
  | rest =>
    let (month, rest) ← takeNumber 2 0 rest
    let rest ← afterDash? dashes rest
    let (day, _) ← takeNumber 2 0 rest
    Date.ofParts? year month day

/-- Hours, minutes, seconds and microseconds as they were read, not yet checked
for range, and whether the text ended with them. -/
structure ClockReading where
  hour : Nat
  minute : Nat
  second : Nat
  micro : Nat
  ended : Bool

/-- Nothing, or a NUL, is left. -/
def atEnd : List Char → Bool
  | [] => true
  | c :: _ => c = Char.ofNat 0

/-- The fraction that starts `cs`: up to six digits count, further ones are
skipped. -/
def readFraction? (hour minute second : Nat) (cs : List Char) :
    Option ClockReading :=
  let places := min 6 cs.length
  (takeNumber places 0 cs).map fun (value, rest) =>
    ⟨hour, minute, second, value * Nat.pow 10 (6 - places),
      atEnd (rest.dropWhile isDigit)⟩

/-- The next step of a clock reading behind one of its parts. -/
inductive AfterPart where
  | done (ended : Bool)
  | part (rest : List Char)
  | fraction (rest : List Char)

/-- How the text goes on behind a part. `colons` tells whether the parts have
colons between them. A single character that is left over ends the reading,
whatever it is. -/
def afterPart? (colons : Bool) : List Char → Option AfterPart
  | [] => some (.done true)
  | [c] => some (.done (atEnd [c]))
  | c :: rest =>
    if colons && c = ':' then some (.part rest)
    else if c = '.' || c = ',' then some (.fraction rest)
    else if !colons then some (.part (c :: rest))
    else none

/-- A clock reading from all of `cs`. -/
def readClock? (cs : List Char) : Option ClockReading := do
  let (hour, rest) ← takeNumber 2 0 cs
  let colons := hasAt rest 0 (· = ':')
  match ← afterPart? colons rest with
  | .done ended => some ⟨hour, 0, 0, 0, ended⟩
  | .fraction rest => readFraction? hour 0 0 rest
  | .part rest =>
    let (minute, rest) ← takeNumber 2 0 rest
    match ← afterPart? colons rest with
    | .done ended => some ⟨hour, minute, 0, 0, ended⟩
    | .fraction rest => readFraction? hour minute 0 rest
    | .part rest =>
      let (second, rest) ← takeNumber 2 0 rest
      match ← afterPart? colons rest with
      | .done ended => some ⟨hour, minute, second, 0, ended⟩
      | .fraction rest => readFraction? hour minute second rest
      | .part rest => readFraction? hour minute second rest

def startsOffset (c : Char) : Bool := c = '+' || c = '-' || c = 'Z'

/-- An offset with its sign or mark in front. -/
def readOffset? : List Char → Option Offset
  | [] => none
  | 'Z' :: rest => if atEnd rest then some .utc else none
  | sign :: rest => do
    let clock ← readClock? rest
    if !clock.ended then none
    let seconds := clock.hour * 3600 + clock.minute * 60 + clock.second
    if seconds = 0 then some .utc
    else
      let n : Int := seconds * 1000000 + clock.micro
      Offset.ofMicros? (if sign = '-' then -n else n)

/-- Time and offset. Without an offset the time has to end the text. -/
def readTime? (cs : List Char) : Option (TimeOfDay × Option Offset) := do
  let clock ← readClock? (cs.takeWhile (!startsOffset ·))
  let time := TimeOfDay.ofParts? clock.hour clock.minute
    clock.second clock.micro
  match cs.dropWhile (!startsOffset ·) with
  | [] => if clock.ended then time.map (·, none) else none
  | offset => do
    let offset ← readOffset? offset
    (← time, some offset)

/-- A date-time; a date alone is its midnight without an offset. -/
def read? (s : String) : Option DateTime := do
  let cs := spread s.toList
  let length ← dateLength? cs
  let date ← readDateOf length cs
  match cs.drop length with
  | [] => some ⟨date, .midnight, none⟩
  | separator :: rest =>
    let (time, offset) ← readTime? (rest.drop (separator.utf8Size - 1))
    some ⟨date, time, offset⟩

/-- A date in its written form. -/
def readDate? (s : String) : Option Date := readDateOf 10 s.toList

end GraphMapper.Iso

/-
How values of records become the scalars that the graph stores, by the type of
their field.

Numbers may be given as text, dates as ISO 8601 text or as milliseconds since
1970, truth values as 0, 1 or as words. Objects and arrays are stored as JSON
text and strings as the plain form of whatever is given.

What is no number, date or truth value is rejected, with its kind among the
details (`notA`). Milliseconds that no calendar has, integers that are too long
to be written out and keys that JSON has no form for are not looked for
beforehand: they come out as slips.
-/
import GraphMapper.Number.Reader
import GraphMapper.Value.Conversion
import GraphMapper.Value.Json

namespace GraphMapper.Record

def notA (what : String) (v : Value) : Failure :=
  .validation ("value is not a " ++ what) [(.text "type", .text v.kind)]

-- =============================================================== numbers

/-- A number as it is, a truth value as 0 or 1, or the number that a text
writes with any white space around it: an integer if it writes one. -/
def toNumber (v : Value) : Checked Value :=
  match v with
  | .bool b => .ok (.int (if b then 1 else 0))
  | .int _ | .float _ => .ok v
  | v =>
    match v.text? with
    | none => .error (notA "number" v)
    | some s =>
      let digits := Text.trim s
      match Numeral.readInteger? digits, Numeral.readDecimal? digits with
      | some n, _ => .ok (.int n)
      | none, some x => .ok (.float x)
      | none, none => .error (notA "number" v)

-- ================================================================= dates

/-- The seconds that the clock of the system can tell the date of. -/
def leastClockSecond : Int := -67768040609740800

def greatestClockSecond : Int := 67768036191676799

/-- The seconds up to which, either way, a date is asked of the clock at
all. -/
def clockReach : Int := 9223372036854775808

/-- The date-time so many whole seconds and microseconds after 1970 began. The
reach of the system's clock, its own limits and those of the calendar are
checked in this order. -/
def ofSeconds (seconds : Int) (micros : Nat) : Checked Value :=
  if seconds < -clockReach || clockReach < seconds then
    .error (.slip .overflow)
  else if seconds < leastClockSecond || greatestClockSecond < seconds then
    .error (.slip .system)
  else
    match DateTime.ofEpoch? seconds micros with
    | some t => .ok (.dateTime t)
    | none => .error (.slip .value)

/-- The date-time a number of seconds after 1970 began, to the nearest
microsecond, a half to the even neighbour. -/
def ofEpochSeconds (x : Binary64) : Checked Value :=
  match x.truncate? with
  | none => .error (.slip (if x.isNaN then .value else .overflow))
  | some whole =>
    let micros := (x.fraction.timesNat 1000000).nearest
    if 1000000 ≤ micros then ofSeconds (whole + 1) (micros - 1000000).toNat
    else if micros < 0 then ofSeconds (whole - 1) (micros + 1000000).toNat
    else ofSeconds whole micros.toNat

/-- A final `Z` as the offset that it means. -/
def spellOutZulu (s : String) : String :=
  match s.toList.reverse with
  | 'Z' :: rest => String.ofList rest.reverse ++ "+00:00"
  | _ => s

/-- A date-time as it is, a date as its start at universal time, milliseconds
since 1970, or text. -/
def toDateTime (v : Value) : Checked Value :=
  match v with
  | .dateTime _ => .ok v
  | .date d => .ok (.dateTime (.ofDate d))
  | .int n =>
    match Binary64.ofInt? n with
    | some x => ofEpochSeconds (x.divideBy 1000)
    | none => .error (.slip .overflow)
  | .float x => ofEpochSeconds (x.divideBy 1000)
  | v =>
    match v.text?.bind fun s => Iso.read? (spellOutZulu (Text.trim s)) with
    | some t => .ok (.dateTime t)
    | none => .error (notA "date" v)

-- ========================================================== truth values

/-- The truth value of a word, in any letter case and with white space around
it. -/
def truthWord? (s : String) : Option Bool :=
  let word := Text.lowerAscii (Text.trim s)
  if word = "true" || word = "1" then some true
  else if word = "false" || word = "0" then some false
  else none

def toTruth (v : Value) : Checked Value :=
  match v with
  | .bool _ => .ok v
  | .int 0 => .ok (.bool false)
  | .int 1 => .ok (.bool true)
  | v =>
    match v.text?.bind truthWord? with
    | some b => .ok (.bool b)
    | none => .error (notA "boolean" v)

-- ============================================================= all types

/-- The stored form of a value for a field of the given type. Without a type
there is none. -/
def serialize (type : Option FieldType) (v : Value) : Checked Value :=
  match type with
  | some .object | some .array =>
    do .ok (.text (← v.json))
  | some .number => toNumber v
  | some .date => toDateTime v
  | some .boolean => toTruth v
  | some .string => do .ok (.text (← v.plain))
  | none => .error (.ofKind .unsupportedType "Type None is not supported." [])

end GraphMapper.Record

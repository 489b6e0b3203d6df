/-
Dates with a time of day, to the microsecond, and with or without an offset
from universal time.

One without an offset says what a calendar and a clock on a wall show, one with
an offset names an instant. The two kinds are never equal and have no order
between them.
-/
import GraphMapper.Calendar.Date

namespace GraphMapper

structure TimeOfDay where
  hour : Fin 24
  minute : Fin 60
  second : Fin 60
  micro : Fin 1000000
  deriving DecidableEq

namespace TimeOfDay

def midnight : TimeOfDay := ⟨0, 0, 0, 0⟩

/-- Microseconds since midnight. -/
def micros (t : TimeOfDay) : Nat :=
  ((t.hour.val * 60 + t.minute.val) * 60 + t.second.val) * 1000000
    + t.micro.val

def ofParts? (hour minute second micro : Nat) : Option TimeOfDay :=
  if h : hour < 24 ∧ minute < 60 ∧ second < 60 ∧ micro < 1000000 then
    some ⟨⟨hour, h.1⟩, ⟨minute, h.2.1⟩, ⟨second, h.2.2.1⟩, ⟨micro, h.2.2.2⟩⟩
  else none

/-- The time `n` microseconds after midnight, counted within one day. -/
def ofMicros (n : Nat) : TimeOfDay :=
  ⟨⟨n / 3600000000 % 24, Nat.mod_lt _ (by decide)⟩,
    ⟨n / 60000000 % 60, Nat.mod_lt _ (by decide)⟩,
    ⟨n / 1000000 % 60, Nat.mod_lt _ (by decide)⟩,
    ⟨n % 1000000, Nat.mod_lt _ (by decide)⟩⟩

end TimeOfDay

/-- A distance from universal time in microseconds, less than a day either
way. -/
structure Offset where
  micros : Int
  bounded : micros.natAbs < 86400000000
  deriving DecidableEq

namespace Offset

def utc : Offset := ⟨0, by decide⟩

def ofMicros? (n : Int) : Option Offset :=
  if h : n.natAbs < 86400000000 then some ⟨n, h⟩ else none

end Offset

structure DateTime where
  date : Date
  time : TimeOfDay
  offset : Option Offset
  deriving DecidableEq

namespace DateTime

/-- Microseconds from the start of the calendar, by calendar and clock. -/
def wallMicros (t : DateTime) : Int :=
  (t.date.ordinal : Int) * 86400000000 + t.time.micros

/-- With an offset: microseconds from the start of the calendar at universal
time. -/
def instant? (t : DateTime) : Option Int :=
  t.offset.map fun o => t.wallMicros - o.micros

/-- Two date-times are equal when they name the same instant, or neither has an
offset and both show the same. -/
def beq (a b : DateTime) : Bool :=
  match a.instant?, b.instant? with
  | some x, some y => x == y
  | none, none => a.wallMicros == b.wallMicros
  | _, _ => false

/-- The order, where there is one. -/
def lt? (a b : DateTime) : Option Bool :=
  match a.instant?, b.instant? with
  | some x, some y => some (decide (x < y))
  | none, none => some (decide (a.wallMicros < b.wallMicros))
  | _, _ => none

/-- The start of a date at universal time. -/
def ofDate (d : Date) : DateTime := ⟨d, .midnight, some .utc⟩

/-- The day number of 1970-01-01. -/
def epochDay : Int := 719163

/-- The date-time at universal time that is `seconds` and `micros` after 1970
began. -/
def ofEpoch? (seconds : Int) (micros : Nat) : Option DateTime :=
  let day := Int.fdiv seconds 86400
  let rest := (Int.fmod seconds 86400).toNat
  (Date.ofOrdinal? (epochDay + day)).map fun date =>
    ⟨date, .ofMicros (rest * 1000000 + micros), some .utc⟩

end DateTime

end GraphMapper

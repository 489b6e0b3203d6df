/-
What is in a value, and what a value has at a place.

Whatever has items may be asked for one, a mapping for a key and a text for a
part of it. Octets may be asked for one octet or for a row of them. Only lists,
tuples, texts, octets and paths have places: they are numbered from the front,
or with negative numbers from the end.
-/
import GraphMapper.Value.Conversion

namespace GraphMapper.Value

/-- The number that an integer or a truth value is as a place. -/
def index? : Value → Option Int
  | .bool b => some (if b then 1 else 0)
  | .int n => some n
  | _ => none

/-- Whether the container has the value in it. No set is a member of a set,
which is said of a set in spite of its being no key. -/
def contains (container v : Value) : Checked Bool :=
  match container with
  | .list items | .tuple items | .path items => .ok (v.isIn items)
  | .set members =>
    match v with
    | .set _ => .ok false
    | v => if v.isKey then .ok (members.any v.sameKey) else .error v.keyFault
  | .map entries => do .ok (← Entries.find v entries).isSome
  | .bytes octets =>
    match v, v.index? with
    | .bytes run, _ => .ok (Text.occursIn run octets)
    | _, some n =>
      if 0 ≤ n && n < 256 then .ok (octets.any fun o => (o.toNat : Int) == n)
      else .error (.slip .value)
    | _, none => .error (.slip .type)
  | container =>
    match container.text?, v.text? with
    | some s, some part => .ok (Text.contains s part)
    | _, _ => .error (.slip .type)

/-- The place of a number in a row of some length, counted from the front. -/
def placeIn (length : Nat) (place : Value) : Checked Nat :=
  match place.index? with
  | none => .error (.slip .type)
  | some n =>
    let fromFront := if n < 0 then n + length else n
    if 0 ≤ fromFront && fromFront < length then .ok fromFront.toNat
    else .error (.slip .index)

/-- The place of an item that is to be taken out of a row. Unlike a place that
is only looked at, it has to be a number of 64 bits before it can be out of
range. -/
def takenFrom (length : Nat) (place : Value) : Checked Nat :=
  match place.index? with
  | some n =>
    if n < -9223372036854775808 || 9223372036854775807 < n then
      .error (.slip .overflow)
    else placeIn length place
  | none => .error (.slip .type)

/-- The item of a row at a place. -/
def itemAt (items : List Value) (place : Value) : Checked Value := do
  .ok (items.getD (← placeIn items.length place) .null)

/-- What a value has under a key or at a place. -/
def at? (container key : Value) : Checked Value :=
  match container with
  | .map entries => do
    match ← Entries.find key entries with
    | some v => .ok v
    | none => .error (.slip .key)
  | .list _ | .tuple _ | .bytes _ => do itemAt (← container.items) key
  | .path items =>
      if key.text?.isSome then .error (.slip .key) else itemAt items key
  | container => do
    if container.text?.isNone then .error (.slip .type)
    else itemAt (← container.items) key

end GraphMapper.Value

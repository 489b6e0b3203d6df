/-
Readings of a value as something else: as a mapping, as the items of a
container, as an integer. A value that has no such reading is a slip.
-/
import GraphMapper.Failure
import GraphMapper.Number.Reader
import GraphMapper.Value.Mapping

namespace GraphMapper

/-- What is under a key, if anything is; what is looked for has to be able to
be a key. -/
def Entries.find {β : Type} (key : Value) (es : List (Value × β)) :
    Checked (Option β) :=
  if key.isKey then .ok (Entries.lookup? key es) else .error key.keyFault

namespace Value

/-- The entries of a mapping. Where one is needed and another value is found,
what is missing is the way to ask it for a key. The data type of mappings knows
the way, but has nothing to be asked for. -/
def entries : Value → Checked Entries
  | .map es => .ok es
  | .datatype .mapping => .error (.slip .type)
  | _ => .error (.slip .attribute)

/-- The entries of a mapping that may be left out: whatever is not given counts
as empty. -/
def entriesOrNone (v : Value) : Checked Entries :=
  if v.isGiven then v.entries else .ok []

/-- The items of whatever has items: a mapping has its keys, a text its
characters. -/
def items : Value → Checked (List Value)
  | .list xs | .tuple xs | .set xs | .path xs => .ok xs
  | .map es => .ok (Entries.keys es)
  | .text s => .ok (s.toList.map fun c => .text c.toString)
  | .symbol (.fieldType t) => .ok (t.word.toList.map fun c => .text c.toString)
  | .bytes octets => .ok (octets.map fun b => .int b.toNat)
  | _ => .error (.slip .type)

/-- A key with its value from an item that has exactly two items. -/
def pair (v : Value) : Checked (Value × Value) := do
  match ← v.items with
  | [k, x] => if k.isKey then .ok (k, x) else .error k.keyFault
  | _ => .error (.slip .value)

/-- A copy of a mapping, or the mapping that a row of pairs stands for. -/
def toEntries : Value → Checked Entries
  | .map es => .ok es
  | v => do
    let xs ← v.items
    let pairs ← xs.mapM pair
    .ok (Entries.ofList pairs)

/-- The integer part of a number, or the number that a text writes. -/
def toInt : Value → Checked Int
  | .bool b => .ok (if b then 1 else 0)
  | .int n => .ok n
  | .float x =>
    match x.truncate? with
    | some n => .ok n
    | none => .error (.slip (if x.isNaN then .value else .overflow))
  | .bytes octets =>
    match Numeral.readIntegerOctets? octets with
    | some n => .ok n
    | none => .error (.slip .value)
  | v =>
    match v.text? with
    | none => .error (.slip .type)
    | some s =>
      match Numeral.readInteger? s with
      | some n => .ok n
      | none => .error (.slip .value)

/-- The value as a natural number, if it is one: truth values are not. -/
def natural? : Value → Option Nat
  | .int n => if 0 ≤ n then some n.toNat else none
  | _ => none

end Value

end GraphMapper

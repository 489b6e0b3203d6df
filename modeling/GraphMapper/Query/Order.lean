/-
Orders: by which fields records are sorted, the most significant first, and
which way. An entry is a text with a field and an optional direction, or a
tuple of the two; an order is one entry or a row of them.
-/
import GraphMapper.Value.Conversion

namespace GraphMapper.Order

/-- The direction that a word names, in any letter case. -/
def direction? (word : String) : Option Sorting :=
  let w := Text.lowerAscii word
  if w = "asc" then some .ascending
  else if w = "desc" then some .descending
  else none

/-- The field and direction of a tuple that is an entry. -/
def pair? : Value → Option (Value × Sorting)
  | .tuple [field, way] => (way.text?.bind direction?).map fun d => (field, d)
  | _ => none

def invalidEntry (entry : Value) : Checked Failure := do
  .ok (.validation ("invalid order entry " ++ (← entry.literal)) [])

/-- The entry that a text holds. -/
def ofWords (entry : Value) : List String → Checked (Value × Sorting)
  | [field] => .ok (.text field, .ascending)
  | [field, way] =>
    match direction? way with
    | some d => .ok (.text field, d)
    | none =>
        .error (.validation ("invalid order direction " ++ Text.literal way)
          [])
  | _ => do .error (← invalidEntry entry)

def parseEntry (entry : Value) : Checked (Value × Sorting) :=
  match entry.text? with
  | some s => ofWords entry (Text.words s)
  | none =>
    match pair? entry with
    | some e => .ok e
    | none =>
        .error (.validation "order entries must be 'field ASC|DESC' strings"
          [])

/-- The entries of an order. -/
def entriesOf (order : Value) : List Value :=
  match order.sequence?, pair? order with
  | some items, none => items
  | _, _ => [order]

def parse (order : Value) : Checked (List (Value × Sorting)) :=
  (entriesOf order).mapM parseEntry

end GraphMapper.Order

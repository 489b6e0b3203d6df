/-
Results in plain terms.

A normal result is made of scalars, lists and mappings only. Elements become
mappings of id and label (an edge with its ends besides), properties become
their values, members of vocabularies become their names, as values and as
keys; everything that holds several values in a row becomes a list. Two keys
that become the same share the place of the first and the value of the last.

In the records of a model the label is left out, since it is the model's name,
and the ends of an edge are references.
-/
import GraphMapper.Value.Mapping
import GraphMapper.Value.Conversion

namespace GraphMapper.Result

def normalKey : Value → Value
  | .symbol s => .text s.name
  | k => k

/-- An element by id and label. -/
def elementMap (id label : Value) : Value :=
  .map [(.text "id", id), (.text "label", label)]

mutual

def normalize : Value → Value
  | .traverser object => normalize object
  | .map entries => .map (Entries.ofList (normalizeEntries entries))
  | .vertexProperty _ _ value => normalize value
  | .edge id label outId outLabel inId inLabel =>
    .map [(.text "id", normalize id), (.text "label", label),
      (.text "OUT", elementMap (normalize outId) outLabel),
      (.text "IN", elementMap (normalize inId) inLabel)]
  | .vertex id label => elementMap (normalize id) label
  | .property _ value => normalize value
  | .path objects => .list (normalizeAll objects)
  | .list items => .list (normalizeAll items)
  | .tuple items => .list (normalizeAll items)
  | .set items => .list (normalizeAll items)
  | .symbol s => .text s.name
  | v => v
termination_by structural v => v

def normalizeAll : List Value → List Value
  | [] => []
  | v :: vs => normalize v :: normalizeAll vs
termination_by structural vs => vs

def normalizeEntries : List (Value × Value) → List (Value × Value)
  | [] => []
  | (k, v) :: es => (normalKey k, normalize v) :: normalizeEntries es
termination_by structural es => es

end

-- =============================================================== records

/-- The keys under which the record of an edge holds its ends. -/
def endKeys : List Value := [.text "IN", .text "OUT"]

/-- Adds the reference to an end, if the end is a mapping. -/
def withReference (field : String) (theEnd : Value) (es : Entries) :
    Checked Entries := do
  match theEnd with
  | .map e =>
    let label ← (Entries.field "label" e).plain
    let id ← (Entries.field "id" e).plain
    .ok (Entries.insert (.text field) (.text (label ++ "/" ++ id)) es)
  | _ => .ok es

/-- The record of an edge with references in place of its ends, and without its
label. -/
def collapseEdge (es : Entries) : Checked Entries := do
  let rest := es.filter fun e => !e.1.isIn endKeys &&
    !e.1.equal (.text "label")
  withReference "to" (Entries.field "IN" es)
    (← withReference "from" (Entries.field "OUT" es) rest)

/-- One item of a list of records. -/
def record (edge : Bool) (item : Value) : Checked Value := do
  match item with
  | .map es =>
    if edge && endKeys.any (fun k => Entries.has k es) then
      .ok (.map (← collapseEdge es))
    else .ok (.map (Entries.erase (.text "label") es))
  | item => .ok item

/-- A result as the mapper gives it out; `edge` when it is about an edge
model. -/
def present (edge : Bool) (raw : Value) : Checked Value := do
  match normalize raw with
  | .list items => .ok (.list (← items.mapM (record edge)))
  | .map es => if edge then .ok (.map (← collapseEdge es)) else .ok (.map es)
  | v => .ok v

end GraphMapper.Result

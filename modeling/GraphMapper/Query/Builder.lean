/-
One traversal for each operation of the mapper: query, count, exists, drop,
create, replace, update.

An operation starts behind the steps of a source. What can be checked without
the source is checked before its first step; a payload that cannot be written
is noticed only when its entry is reached.

Two things that an operation is given are read here before anything else is
done. The *projection* is the fields that a filter asks for: a mapping of
fields to whether they are wanted, one field, or anything that has items, and
asking for nothing asks for every field. A *reference* names an end of an edge:
the label and the id of a vertex with a slash between them. What is given for
one is read by its plain form, so it need not be a text.
-/
import GraphMapper.Filter.Scope
import GraphMapper.Model.Registry
import GraphMapper.Query.Order
import GraphMapper.Record.Write
import GraphMapper.Text.Uppercase

namespace GraphMapper

-- ============================================================= projection

namespace Projection

/-- The names in a field entry that is not left out. -/
def names : Value → Checked (List Value)
  | .map es => .ok ((es.filter fun e => e.2.isGiven).map (·.1))
  | v => if v.text?.isSome then .ok [v] else v.items

/-- The explicit fields of a filter; `none` when every field is wanted. -/
def fields (filter : Entries) : Checked (Option (List Value)) :=
  match Entries.field "fields" filter with
  | .null => .ok none
  | v => do
    let ns ← names v
    .ok (if ns.isEmpty then none else some ns)

end Projection

-- ============================================================= references

namespace Reference

/-- The fields of a record that hold the references of an edge. -/
def fields : List Value := [.text "from", .text "to"]

/-- Label and id of a reference; `name` is the field that it was found in. -/
def parse (v : Value) (name : String) : Checked (String × String) := do
  let details : Entries := [(.text "field", .text name)]
  if v.equal .null || v.equal (.text "") then
    .error (.ofKind .missingReference
      "Edge entity requires FROM and TO fields!" details)
  else
    match Text.pieces '/' (← v.plain).toList with
    | [label@(_ :: _), id@(_ :: _)] =>
        .ok (String.ofList label, String.ofList id)
    | _ =>
      .error (.ofKind .invalidReferenceFormat
        ("Relational field " ++ Text.upper name ++ " must be MODEL/ID format")
          details)

end Reference

namespace Query

-- ================================================================= sources

/-- Append steps that have been worked out without the source. -/
def append (steps : List Step) : Build Unit := modify (· ++ steps)

/-- The steps that select the elements of a model by a filter. -/
def select (m : Model) (filter : Value) : Build Unit := do
  append (← Build.check (Filter.select m filter))

/-- A filter for the primary key. -/
def byId (m : Model) (id : Value) : Value := .map [(m.idField, id)]

-- ================================================================= reads

/-- A number of records, if it is given: an integer that is not negative. -/
def bound (name : String) (v : Value) : Checked (Option Value) :=
  match v with
  | .null => .ok none
  | v =>
    match v.natural? with
    | some _ => .ok (some v)
    | none =>
      .error (.validation (name ++ " must be a non-negative integer")
        [(.text name, v)])

/-- Records can be sorted only by fields that are read. -/
def checkOrder (order : List (Value × Sorting)) :
    Option (List Value) → Checked Unit
  | none => .ok ()
  | some fields =>
    match order.find? fun e => !e.1.isIn fields with
    | some e => do
      .error (.validation
        ("Field \"" ++ (← e.1.plain) ++ "\" must be in field list!") [])
    | none => .ok ()

/-- The storage key of a field that a filter names, which may be no key at
all. -/
def keyOf (m : Model) (name : Value) : Checked Value :=
  (m.columnOf name).map fun _ => m.storageKey name

/-- The storage keys of the fields to be read; the id is read with every
element. -/
def storageKeys (m : Model) (names : List Value) : Checked (List Value) :=
  (names.filter fun n => !n.equal m.idField).mapM (keyOf m)

/-- One key of the order. -/
def orderStep (m : Model) (entry : Value × Sorting) : Build Unit := do
  let key ← Build.check
    (if entry.1.equal m.idField then .ok .idKey else keyOf m entry.1)
  Build.step .orderBy [key, .symbol (.sorting entry.2)]

def boundStep (name : StepName) : Option Value → Build Unit
  | some n => Build.step name [n]
  | none => pure ()

/-- A query with a filter that says something. -/
def filtered (m : Model) (filter : Entries) : Build Unit := do
  let fields ← Build.check (Projection.fields filter)
  let ordering := Entries.field "order" filter
  let order ← Build.check (if ordering.isGiven then
    Order.parse ordering else .ok [])
  Build.check (checkOrder order fields)
  let skip ← Build.check (bound "skip" (Entries.field "skip" filter))
  let limit ← Build.check (bound "limit" (Entries.field "limit" filter))
  select m (Entries.field "where" filter)
  Build.step .elementMap
    (← Build.check (storageKeys m (fields.getD m.fieldNames)))
  if !order.isEmpty then
    Build.step .order []
    order.forM (orderStep m)
  boundStep .skip skip
  boundStep .limit limit

/-- The records of a model that a filter lets through, projected, sorted and
cut. Without a filter the elements themselves are read. -/
def query (m : Model) (filter : Value) : Build Unit := do
  if filter.isGiven then
    filtered m (← Build.check filter.entries)
  else append [Filter.source m [], Filter.labelled m.label]

def count (m : Model) (filter : Value) : Build Unit := do
  select m filter
  Build.step .count []

/-- Whether there is an element with an id, as the count of at most one. -/
def presence (m : Model) (id : Value) : Build Unit := do
  select m (byId m id)
  Build.step .limit [.int 1]
  Build.step .count []

def drop (m : Model) (filter : Value) : Build Unit := do
  select m filter
  Build.step .drop []

-- ================================================================ writes

/-- A traversal that stands as an argument. -/
def child (steps : List Step) : Value := .traversal steps

/-- The steps that create an edge between the vertices that the references
name. -/
def edgeBetween (m : Model) (origin target : String × String) : List Step :=
  [.call .vertices [.text origin.2], Filter.labelled (.text origin.1),
    .call .addEdge [m.label],
    .call .to [child [.call .vertices [.text target.2],
      Filter.labelled (.text target.1)]]]

/-- A new element with the entries of a record. -/
def create (m : Model) (record : Value) : Build Unit := do
  let data ← Build.check (record.toEntries >>= Record.toStorage m)
  if m.isEdge then
    let origin ← Build.check
      (Reference.parse (Entries.field "from" data) "from")
    let target ← Build.check (Reference.parse (Entries.field "to" data) "to")
    append (edgeBetween m origin target)
    Record.write m Reference.fields data
  else
    Build.step .addVertex [m.label]
    Record.write m [] data

/-- A record without the references to the ends of an edge. -/
def withoutEnds (es : Entries) : Entries :=
  Reference.fields.foldl (fun acc f => Entries.erase f acc) es

/-- The record of a change under storage keys; the ends of an edge cannot be
changed. -/
def payload (m : Model) (record : Value) : Checked Entries := do
  let data ← record.toEntries
  Record.toStorage m (if m.isEdge then withoutEnds data else data)

/-- The step that drops the properties of an element: those under the keys, or
all. -/
def clearing (keys : List Value) : Step :=
  .call .sideEffect [child [.call .properties keys, .call .drop []]]

/-- Everything that the element holds is dropped, then the record is
written. -/
def replace (m : Model) (id record : Value) : Build Unit := do
  let data ← Build.check (payload m record)
  select m (byId m id)
  append [clearing []]
  Record.write m (m.idField :: Reference.fields) data

/-- Which field each storage key belongs to: the last of those that share
it. -/
def fieldsByKey (m : Model) : Checked Entries := do
  let pairs ← m.fields.mapM fun f =>
    let key := if f.column.isGiven then f.column else f.name
    if key.isKey then .ok (key, f.name) else .error key.keyFault
  .ok (Entries.ofList pairs)

/-- The entries of an update in their stored form. -/
def writes (m : Model) (columns data : Entries) : Checked Entries :=
  data.mapM fun e => do
    let name := (Entries.lookup? e.1 columns).getD e.1
    .ok (e.1, ← Record.serialize (m.type? name) e.2)

/-- Only the named fields are dropped and written again; the elements are
counted. -/
def update (m : Model) (filter record : Value) : Build Unit := do
  let data ← Build.check (payload m record)
  let columns ← Build.check (fieldsByKey m)
  let entries ← Build.check (writes m columns (Entries.erase m.idField data))
  select m filter
  append (entries.flatMap fun e =>
    [clearing [e.1], .call .property [e.1, e.2]])
  Build.step .count []

end Query

end GraphMapper

/-
The two sides of a record: under field names, as applications see it, and under
storage keys, as the graph holds it.

Renaming works on one mapping, entry by entry in the order of the record's
keys, and each renamed entry moves to the end unless its column is there
already. So a column that is also the name of another field takes that field's
place, with what was written there lost, unless the other field comes first and
has moved away.

What is no mapping but has items can still stand where a record is meant:
nothing is renamed in it as long as no item is a field with a column of its
own. In a list even that may be done, if field and column are places in the
list. Reading goes by what is in a value and what it has at a place.
-/
import GraphMapper.Model.Basic
import GraphMapper.Value.Membership

namespace GraphMapper.Record

/-- The column that an entry is to be renamed to, if it is to be. -/
def newKey? (m : Model) (key : Value) : Checked (Option Value) := do
  let column ← m.columnOf key
  .ok (if column.isGiven && !column.equal key then some column else none)

/-- One entry under its storage key. -/
def renameKey (m : Model) (es : Entries) (key : Value) : Checked Entries := do
  match ← newKey? m key with
  | none => .ok es
  | some column =>
    if column.isKey then
      .ok (Entries.insert column (Entries.get key es) (Entries.erase key es))
    else .error column.keyFault

/-- The record under storage keys. -/
def toStorage (m : Model) (es : Entries) : Checked Entries :=
  (Entries.keys es).foldlM (renameKey m) es

/-- One item of a list that is a field: what is at the place that it names is
taken out, and put in place of what is then at the place that its column
names. -/
def renamePlace (m : Model) (items : List Value) (key : Value) :
    Checked (List Value) := do
  match ← newKey? m key with
  | none => .ok items
  | some column =>
    let place ← Value.takenFrom items.length key
    let rest := items.eraseIdx place
    .ok (rest.set (← Value.placeIn rest.length column)
      (items.getD place .null))

/-- An item of something that items can only be looked at in: it may not be a
field to be renamed. -/
def refuseRename (slip : Slip) (m : Model) (key : Value) : Checked Unit := do
  if (← newKey? m key).isSome then .error (.slip slip) else .ok ()

/-- Whatever stands for a record, under storage keys. -/
def toStorageAny (m : Model) (record : Value) : Checked Value :=
  match record with
  | .map es => do .ok (.map (← toStorage m es))
  | .list items => do .ok (.list (← items.foldlM (renamePlace m) items))
  | .set members => do
    members.forM (refuseRename .type m)
    .ok record
  | record => do
    (← record.items).forM (refuseRename .attribute m)
    .ok record

/-- One declared field of a stored record: the column wins over the name, and a
field that is there under neither is left out. -/
def storedField (m : Model) (record : Value) (acc : Entries) (name : Value) :
    Checked Entries := do
  let column := m.column name
  if ← (if column.isGiven then record.contains column else .ok false) then
    .ok (Entries.insert name (← record.at? column) acc)
  else if ← record.contains name then
    .ok (Entries.insert name (← record.at? name) acc)
  else .ok acc

/-- The declared fields of a stored record, in the order of their
declaration. -/
def fromStorage (m : Model) (record : Value) : Checked Entries :=
  m.fieldNames.foldlM (storedField m record) []

end GraphMapper.Record

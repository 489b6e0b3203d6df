/-
Models: a name, which is also the label of the model's elements, whether these
are vertices or edges, and the fields of a record in order, each with the type
it is written as and, if it has one, the column that it is stored under. One
field is the primary key; its value is the element's id.

Field names and columns come from definitions that nobody has checked, so they
may be any value that can be a key, or for columns any value at all. A label
may be the name of a field type, which counts as its word.

A record of the application has field names for its keys, and what is stored
has storage keys: the column of a field, or its name if it has none. Conditions
and orders use the storage key as well, except for the primary key, which is
the id of the element wherever it is asked for.
-/
import GraphMapper.Model.Retry
import GraphMapper.Text.Blank

namespace GraphMapper

inductive ModelKind where
  | vertex | edge
  deriving DecidableEq, Repr

namespace ModelKind

def word : ModelKind → String
  | .vertex => "vertex"
  | .edge => "edge"

def ofWord? (s : String) : Option ModelKind :=
  if s = "vertex" then some .vertex
  else if s = "edge" then some .edge
  else none

end ModelKind

structure Field where
  name : Value
  type : FieldType
  column : Value

structure Model where
  /-- The label of the model's elements, as it was defined. -/
  label : Value
  /-- The name that the model is found by: the label as a text. -/
  name : String
  named : label.text? = some name
  kind : ModelKind
  fields : List Field
  retry : RetryPolicy
  idField : Value

namespace Model

def isEdge (m : Model) : Bool := m.kind == .edge

def fieldNames (m : Model) : List Value := m.fields.map (·.name)

/-- The declared field of a name. -/
def field? (m : Model) (name : Value) : Option Field :=
  m.fields.find? fun f => f.name.sameKey name

/-- The column of a field as it was defined; nothing for undeclared fields. -/
def column (m : Model) (name : Value) : Value :=
  ((m.field? name).map (·.column)).getD .null

/-- The column by whatever is meant to name a field. -/
def columnOf (m : Model) (name : Value) : Checked Value :=
  if name.isKey then .ok (m.column name) else .error name.keyFault

/-- The key that a field is stored under: its column if it has one, else its
name. -/
def storageKey (m : Model) (name : Value) : Value :=
  if (m.column name).isGiven then m.column name else name

/-- The type of a declared field. -/
def type? (m : Model) (name : Value) : Option FieldType :=
  (m.field? name).map (·.type)

/-- Declared fields with their types. -/
def types (m : Model) : List (Value × FieldType) :=
  m.fields.map fun f => (f.name, f.type)

end Model

end GraphMapper

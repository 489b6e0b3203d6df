/-
Models read from their definitions: mappings with a name, settings and
properties. A property is a type, or a mapping with a type, a column and a mark
on the primary key. Everything is checked here, so that a model that exists can
be written.

# What is not checked

Names and columns are taken as they are: no two of them need to differ, and a
column may be the name of another field. What that does to records is no matter
of the definition, and statements about records say which models they are for.

The primary key is the default name unless some property is marked, and of
several the last.
-/
import GraphMapper.Model.Basic

namespace GraphMapper

/-- The field type that a data type of the application stands for. -/
def Datatype.fieldType? : Datatype → Option FieldType
  | .bool => some .boolean
  | .text => some .string
  | .int | .float => some .number
  | .dateTime | .date => some .date
  | .mapping => some .object
  | .list | .tuple => some .array
  | .set | .bytes | .object | .nothing => none

namespace FieldType

/-- The failure for a type that there is not. -/
def unsupported (shown : String) : Failure :=
  .ofKind .unsupportedType ("Type " ++ shown ++ " is not supported.") []

/-- The type of a word in any letter case, with white space around it. -/
def ofWord? (s : String) : Option FieldType :=
  let word := Text.lowerAscii (Text.trim s)
  all.find? fun t => Text.lowerAscii t.word == word

/-- The type that a definition means: a type, the word for one, a data type, or
a list, which is short for an array. -/
def resolve : Value → Checked FieldType
  | .symbol (.fieldType t) => .ok t
  | .datatype d =>
    match d.fieldType? with
    | some t => .ok t
    | none => .error (unsupported d.name)
  | .list _ | .tuple _ => .ok .array
  | .text s =>
    match ofWord? s with
    | some t => .ok t
    | none => .error (unsupported (Text.literal s))
  | v => do .error (unsupported (← v.literal))

end FieldType

namespace Field

/-- A field from its entry among the properties, and whether it is marked as
the primary key. -/
def ofProperty (name property : Value) : Checked (Field × Bool) :=
  match property with
  | .map es => do
    let own := Entries.field "neptune" es
    let place := if own.isGiven then own else Entries.field "gremlin" es
    let column ← place.entriesOrNone
    let type ← FieldType.resolve (Entries.field "type" es)
    let marked := match Entries.field "id" es with
      | .bool b => b
      | _ => false
    .ok (⟨name, type, Entries.field "columnName" column⟩, marked)
  | v => do .ok (⟨name, ← FieldType.resolve v, .null⟩, false)

/-- The fields of all properties in order, with the primary key: the last one
marked. -/
def ofProperties (idField : Value) :
    List (Value × Value) → Checked (List Field × Value)
  | [] => .ok ([], idField)
  | (name, property) :: rest => do
    let (field, marked) ← ofProperty name property
    let (fields, idField) ← ofProperties
      (if marked then name else idField) rest
    .ok (field :: fields, idField)

end Field

namespace Model

/-- The kind in a model's settings. -/
def kindOf (label : Value) (settings : Entries) : Checked ModelKind := do
  let given := (Entries.lookup? (.text "type") settings).getD (.text "vertex")
  match ModelKind.ofWord? (Text.lowerAscii (← given.plain)) with
  | some kind => .ok kind
  | none =>
    .error (.validation "model type must be 'vertex' or 'edge'"
      [(.text "model", label), (.text "type", Entries.field "type" settings)])

/-- The model that a definition describes. -/
def ofDefinition (definition : Value) : Checked Model := do
  let es ← definition.entries
  let label := Entries.field "name" es
  let settings ← (Entries.field "settings" es).entriesOrNone
  let kind ← kindOf label settings
  let properties ← (Entries.field "properties" es).entriesOrNone
  let (fields, idField) ← Field.ofProperties (.text "id") properties
  let retry ← RetryPolicy.ofValue (Entries.field "retry" settings)
  match named : label.text? with
  | some name =>
    if (Text.trim name).isEmpty then
      .error (.validation "model name must be a non-empty string" [])
    else .ok { label, name, named, kind, fields, retry, idField }
  | none => .error (.validation "model name must be a non-empty string" [])

end Model

end GraphMapper

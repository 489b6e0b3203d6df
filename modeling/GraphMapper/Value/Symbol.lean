/-
The closed vocabularies that occur among values: the reserved keys of an
element, the directions of an edge, the directions of an ordering, the semantic
types of a model's fields, and the data types of the application. Each member
has a name of its own, which is also how results show it.

A member is no text, even where results show it as one. A field type is an
exception: it is written like its word, and compares as that word wherever
texts are compared.
-/
namespace GraphMapper

/-- Reserved keys: they address parts of an element that are no properties of
it. -/
inductive Reserved where
  | id | idAlias | key | label | value
  deriving DecidableEq, Repr

/-- The directions of an edge as seen from a vertex. -/
inductive Direction where
  | both | inward | outward
  deriving DecidableEq, Repr

/-- The two ways to sort by a key. -/
inductive Sorting where
  | ascending | descending
  deriving DecidableEq, Repr

/-- The semantic types of fields. They decide how a field is written to the
graph. -/
inductive FieldType where
  | string | number | boolean | date | object | array
  deriving DecidableEq, Repr

/-- Data types of the application that may stand for a field type in a model
definition. -/
inductive Datatype where
  | bool | text | int | float | mapping | list | tuple | set | bytes | object
  | dateTime | date | nothing
  deriving DecidableEq, Repr

namespace Reserved

/-- The name that a reserved key is shown by. -/
def name : Reserved → String
  | .id => "id"
  | .idAlias => "id_"
  | .key => "key"
  | .label => "label"
  | .value => "value"

/-- The place in the vocabulary, counted from 1. -/
def number : Reserved → Nat
  | .id => 1
  | .idAlias => 2
  | .key => 3
  | .label => 4
  | .value => 5

end Reserved

namespace Direction

/-- The name that a direction is shown by. -/
def name : Direction → String
  | .both => "BOTH"
  | .inward => "IN"
  | .outward => "OUT"

end Direction

namespace Sorting

/-- The name that a way to sort is shown by. -/
def name : Sorting → String
  | .ascending => "asc"
  | .descending => "desc"

/-- The number of a way to sort. -/
def number : Sorting → Nat
  | .ascending => 1
  | .descending => 2

end Sorting

namespace FieldType

/-- All types of fields. -/
def all : List FieldType :=
  [.string, .number, .boolean, .date, .object, .array]

/-- The word for the type in a model definition. -/
def word : FieldType → String
  | .string => "String"
  | .number => "Number"
  | .boolean => "Boolean"
  | .date => "Date"
  | .object => "Object"
  | .array => "Array"

/-- The name that a type is shown by. -/
def name : FieldType → String
  | .string => "STRING"
  | .number => "NUMBER"
  | .boolean => "BOOLEAN"
  | .date => "DATE"
  | .object => "OBJECT"
  | .array => "ARRAY"

end FieldType

namespace Datatype

/-- All data types. -/
def all : List Datatype :=
  [.bool, .text, .int, .float, .mapping, .list, .tuple, .set, .bytes, .object,
   .dateTime, .date, .nothing]

/-- The name that a data type is shown by. -/
def name : Datatype → String
  | .bool => "bool"
  | .text => "str"
  | .int => "int"
  | .float => "float"
  | .mapping => "dict"
  | .list => "list"
  | .tuple => "tuple"
  | .set => "set"
  | .bytes => "bytes"
  | .object => "object"
  | .dateTime => "datetime"
  | .date => "date"
  | .nothing => "NoneType"

/-- The name with the module that the type is from, where it is not built
in. -/
def qualifiedName : Datatype → String
  | .dateTime => "datetime.datetime"
  | .date => "datetime.date"
  | t => t.name

end Datatype

/-- A member of one of the vocabularies that values may hold. -/
inductive Symbol where
  | reserved (r : Reserved)
  | direction (d : Direction)
  | sorting (o : Sorting)
  | fieldType (t : FieldType)
  deriving DecidableEq, Repr

namespace Symbol

/-- The name that a symbol is shown by, which is that of the member it is. -/
def name : Symbol → String
  | .reserved r => r.name
  | .direction d => d.name
  | .sorting o => o.name
  | .fieldType t => t.name

/-- The name of the vocabulary. -/
def vocabulary : Symbol → String
  | .reserved _ => "T"
  | .direction _ => "Direction"
  | .sorting _ => "Order"
  | .fieldType _ => "PropertyType"

/-- All symbols. -/
def all : List Symbol :=
  [Reserved.id, .idAlias, .key, .label, .value].map .reserved ++
    [Direction.both, .inward, .outward].map .direction ++
    [Sorting.ascending, .descending].map .sorting
      ++ FieldType.all.map .fieldType

end Symbol

end GraphMapper

/-
Values: what applications pass in, what the graph stores and what a server
sends back, with the traversals that are built from them.

A traversal is nothing but the list of its steps, and a step is a name with
arguments; nothing about a traversal is decided before it is run. Arguments may
be traversals themselves, so values and steps are one mutual family. Mappings
keep the order in which their keys were first inserted, and so do all results.

# What is in a value

There are scalars, containers, members of closed vocabularies, and what only a
server sends: elements, their properties, paths and traversers. Two more are
here because traversals hold them: predicates and traversals themselves.
Objects of another kind are told by a name and the text that is shown for them,
since nothing else of them is ever looked at.
-/
import GraphMapper.Calendar.DateTime
import GraphMapper.Number.Binary64
import GraphMapper.Value.Symbol

namespace GraphMapper

/-- The tests that a predicate applies to a value, those that only other
servers know included. `between` is the only one that looks at a second
operand. -/
inductive Comparator where
  | eq | neq | gt | gte | lt | lte | between | within | without | containing
  | notContaining | other (name : String)
  deriving DecidableEq, Repr

/-- The steps of the traversal language, those that only other servers know
included. -/
inductive StepName where
  | vertices | edges | hasLabel | has | or | and | identity | elementMap
  | order | orderBy | skip | limit | count | drop | addVertex | addEdge | to
  | property | properties | sideEffect | fold
  | other (name : String)
  deriving DecidableEq, Repr

mutual

inductive Value where
  | null
  | bool (b : Bool)
  | int (n : Int)
  | float (x : Binary64)
  | text (s : String)
  | bytes (octets : List UInt8)
  | date (d : Date)
  | dateTime (t : DateTime)
  | list (items : List Value)
  | tuple (items : List Value)
  | set (items : List Value)
  | map (entries : List (Value × Value))
  | symbol (s : Symbol)
  | datatype (t : Datatype)
  | vertex (id label : Value)
  | edge (id label outId outLabel inId inLabel : Value)
  | vertexProperty (id label value : Value)
  | property (key value : Value)
  | path (objects : List Value)
  | traverser (object : Value)
  /-- A test of values, or of texts if it is `textual`: the two are classes of
  their own in the traversal language, whatever the test. `bound` is the second
  operand, nothing if there is none. -/
  | predicate (textual : Bool) (op : Comparator) (operand bound : Value)
  | traversal (steps : List Step)
  /-- A thing of a kind that nothing here knows, by the text that it shows
  itself as. The mark tells it from other things with that text. -/
  | foreign (name : String) (mark : Nat)

inductive Step where
  | call (name : StepName) (args : List Value)

end

instance : Inhabited Value := ⟨.null⟩

instance : Inhabited Step := ⟨.call .identity []⟩

/-- The entries of a mapping in order. -/
abbrev Entries := List (Value × Value)

namespace Comparator

/-- The tests with a meaning of their own, each by its name in the traversal
language. -/
def known : List (Comparator × String) :=
  [(.eq, "eq"), (.neq, "neq"), (.gt, "gt"), (.gte, "gte"), (.lt, "lt"),
   (.lte, "lte"), (.between, "between"), (.within, "within"),
   (.without, "without"), (.containing, "containing"),
   (.notContaining, "notContaining")]

def name : Comparator → String
  | .other name => name
  | op => ((known.find? (·.1 = op)).map (·.2)).getD ""

def ofName (name : String) : Comparator :=
  ((known.find? (·.2 = name)).map (·.1)).getD (.other name)

end Comparator

namespace StepName

/-- The steps with a meaning of their own, each by its name in the traversal
language. -/
def known : List (StepName × String) :=
  [(.vertices, "V"), (.edges, "E"), (.hasLabel, "hasLabel"), (.has, "has"),
   (.or, "or"), (.and, "and"), (.identity, "identity"),
   (.elementMap, "elementMap"), (.order, "order"), (.orderBy, "by"),
   (.skip, "skip"), (.limit, "limit"), (.count, "count"), (.drop, "drop"),
   (.addVertex, "addV"), (.addEdge, "addE"), (.to, "to"),
   (.property, "property"), (.properties, "properties"),
   (.sideEffect, "sideEffect"), (.fold, "fold")]

def text : StepName → String
  | .other name => name
  | step => ((known.find? (·.1 = step)).map (·.2)).getD ""

def ofText (name : String) : StepName :=
  ((known.find? (·.2 = name)).map (·.1)).getD (.other name)

end StepName

namespace Value

/-- A predicate on values with one operand. -/
def test (op : Comparator) (operand : Value) : Value :=
  .predicate false op operand .null

/-- A predicate on texts. -/
def textTest (op : Comparator) (operand : Value) : Value :=
  .predicate true op operand .null

/-- The predicate that values from `low` up to but without `high` pass. -/
def between (low high : Value) : Value := .predicate false .between low high

/-- The reserved key of an element's id. -/
def idKey : Value := .symbol (.reserved .id)

/-- The reserved key of an element's label. -/
def labelKey : Value := .symbol (.reserved .label)

/-- The characters of a value that counts as text. The names of field types do:
in a definition they are interchangeable with their words. -/
def text? : Value → Option String
  | .text s => some s
  | .symbol (.fieldType t) => some t.word
  | _ => none

/-- The items of a list or a tuple. -/
def sequence? : Value → Option (List Value)
  | .list items | .tuple items => some items
  | _ => none

/-- Scalars: the values that may stand for themselves in a filter. -/
def isScalar : Value → Bool
  | .bool _ | .int _ | .float _ | .text _ | .date _ | .dateTime _ => true
  | .symbol (.fieldType _) => true
  | _ => false

/-- Whether a value counts as given where a default is at hand: nothing, false,
zero and whatever is empty do not. -/
def isGiven : Value → Bool
  | .null => false
  | .bool b => b
  | .int n => n != 0
  | .float x => !x.isZero
  | .text s => !s.isEmpty
  | .bytes octets => !octets.isEmpty
  | .list items | .tuple items | .set items | .path items => !items.isEmpty
  | .map entries => !entries.isEmpty
  | _ => true

/-- The name of the kind of a value. -/
def kind : Value → String
  | .null => "NoneType"
  | .bool _ => "bool"
  | .int _ => "int"
  | .float _ => "float"
  | .text _ => "str"
  | .bytes _ => "bytes"
  | .date _ => "date"
  | .dateTime _ => "datetime"
  | .list _ => "list"
  | .tuple _ => "tuple"
  | .set _ => "set"
  | .map _ => "dict"
  | .symbol s => s.vocabulary
  | .datatype _ => "type"
  | .vertex _ _ => "Vertex"
  | .edge .. => "Edge"
  | .vertexProperty .. => "VertexProperty"
  | .property .. => "Property"
  | .path _ => "Path"
  | .traverser _ => "Traverser"
  | .predicate textual .. => if textual then "TextP" else "P"
  | .traversal _ => "Bytecode"
  | .foreign _ _ => "Opaque"

end Value

end GraphMapper

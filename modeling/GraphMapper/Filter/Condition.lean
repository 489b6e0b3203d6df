/-
Conditions: what a filter says, once it has been understood. A condition
compares one stored key of an element, or its id, with an operand; or it joins
groups of conditions. All conditions of a group have to hold.

Conditions are on storage keys; the names of fields are gone by now. Groups are
lists of conditions, and an `and` or an `or` has a list of groups. There is no
negation, only operators that have a negated one beside them.
-/
import GraphMapper.Model.Basic

namespace GraphMapper

/-- The operators of comparisons. Conditions that come from a filter have one
of the thirteen known ones; others are kept by name and refused when the
condition is used. -/
inductive Operator where
  | eq | neq | gt | gte | lt | lte | between | inq | nin | like | nlike
  | ilike | nilike | unknown (name : String)
  deriving DecidableEq, Repr

namespace Operator

def known : List (Operator × String) :=
  [(.eq, "eq"), (.neq, "neq"), (.gt, "gt"), (.gte, "gte"), (.lt, "lt"),
   (.lte, "lte"), (.between, "between"), (.inq, "inq"), (.nin, "nin"),
   (.like, "like"), (.nlike, "nlike"), (.ilike, "ilike"), (.nilike, "nilike")]

def name : Operator → String
  | .unknown name => name
  | op => ((known.find? (·.1 = op)).map (·.2)).getD ""

/-- The known operator of a name. -/
def ofName? (name : String) : Option Operator :=
  (known.find? (·.2 = name)).map (·.1)

end Operator

/-- How groups of conditions are joined: every group has to hold, or some. -/
inductive Junction where
  | all | any
  deriving DecidableEq, Repr

inductive Condition where
  /-- `implicit` marks the equality that a scalar alone stands for. -/
  | compare (field : Value) (op : Operator) (operand : Value) (implicit : Bool)
  /-- Joined groups. With no groups at all there is no constraint, however they
  are joined. -/
  | join (junction : Junction) (groups : List (List Condition))

namespace Model

/-- The key of a field in conditions and orders: the reserved key for the
primary key, whatever its column, else the storage key. -/
def conditionKey (m : Model) (name : Value) : Value :=
  if name.equal m.idField then .idKey else m.storageKey name

end Model

/-- Without a model the primary key is `id` and every field is stored under its
name. -/
def conditionKey : Option Model → Value → Value
  | some m, name => m.conditionKey name
  | none, name => if name.equal (.text "id") then .idKey else name

end GraphMapper

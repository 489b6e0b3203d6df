/-
Conditions as steps of a traversal, and the traversal that selects the elements
of a model.

A selection starts from all vertices or all edges, keeps those with the model's
label, and then those that the conditions let through. A filter that is nothing
but the primary key with a scalar goes straight to the element of that id; its
label is checked all the same, since elements of different models may have
equal ids.
-/
import GraphMapper.Filter.Parser

namespace GraphMapper.Filter

/-- The predicate that a comparison tests with. -/
def predicate (op : Operator) (operand : Value) : Checked Value :=
  match op with
  | .eq => .ok (.test .eq operand)
  | .neq => .ok (.test .neq operand)
  | .gt => .ok (.test .gt operand)
  | .gte => .ok (.test .gte operand)
  | .lt => .ok (.test .lt operand)
  | .lte => .ok (.test .lte operand)
  | .between => do
    match ← operand.items with
    | [low, high] => .ok (.between low high)
    | _ => .error (.slip .value)
  | .inq => do .ok (.test .within (.list (← operand.items)))
  | .nin => do .ok (.test .without (.list (← operand.items)))
  | .like | .ilike => .ok (.textTest .containing operand)
  | .nlike | .nilike => .ok (.textTest .notContaining operand)
  | .unknown name =>
      .error (.validation ("unknown operator '" ++ name ++ "'") [])

/-- The step that joins traversals. -/
def joining : Junction → StepName
  | .all => .and
  | .any => .or

mutual

/-- The steps of one condition. Groups become traversals of their own, and no
groups no step. -/
def lower : Condition → Checked (List Step)
  | .compare field _ operand true => .ok [.call .has [field, operand]]
  | .compare field op operand false => do
      .ok [.call .has [field, ← predicate op operand]]
  | .join junction groups => do
    let children ← lowerGroups groups
    .ok (if children.isEmpty then [] else [.call (joining junction) children])
termination_by structural c => c

/-- The steps of conditions, all of which have to hold. -/
def lowerAll : List Condition → Checked (List Step)
  | [] => .ok []
  | c :: cs => do
    let first ← lower c
    let rest ← lowerAll cs
    .ok (first ++ rest)
termination_by structural cs => cs

/-- A traversal for each group; an empty group lets everything through. -/
def lowerGroups : List (List Condition) → Checked (List Value)
  | [] => .ok []
  | g :: gs => do
    let steps ← lowerAll g
    let rest ← lowerGroups gs
    .ok (.traversal (if g.isEmpty then [.call .identity []] else steps)
      :: rest)
termination_by structural gs => gs

end

/-- The id in a filter that is nothing but the primary key with a scalar. -/
def soughtId? (idField : Value) (filter : Value) : Checked (Option Value) := do
  match filter with
  | .map [entry] => do
    let found ← Entries.find idField [entry]
    .ok (found.filter Value.isScalar)
  | _ => .ok none

/-- The step that a selection starts with. -/
def source (m : Model) (ids : List Value) : Step :=
  .call (if m.isEdge then .edges else .vertices) ids

/-- The step that keeps the elements of a label. -/
def labelled (label : Value) : Step := .call .hasLabel [label]

/-- The steps that select the elements of a model that a filter lets
through. -/
def select (m : Model) (filter : Value) : Checked (List Step) := do
  match ← soughtId? m.idField filter with
  | some id => .ok [source m [id], labelled m.label]
  | none =>
    let conditions ← parse m.conditionKey (if filter.isGiven then filter
      else .map [])
    let steps ← lowerAll conditions
    .ok (source m [] :: labelled m.label :: steps)

end GraphMapper.Filter

/-
Filters read into conditions.

A filter is nothing at all, a row of filters, or a mapping. In a mapping, `and`
and `or` hold one filter or a row of them, an index (a number, or a text of
digits) holds a filter that is a sibling of the others, and every other key is
a field that holds a scalar or a mapping of operators. The operators `near` and
`regexp` have no traversal; other operators may stand under fields only. The
first entry that is none of this, read from left to right and from the outside
in, decides the failure.

The operators of one field are read in their order, and so are entries and
rows; conditions come out in the same order. Everything goes by structural
recursion on the filter, so there is no bound on how deeply filters may be
nested.
-/
import GraphMapper.Filter.Condition
import GraphMapper.Text.Digit

namespace GraphMapper.Filter

/-- The operators that have no traversal, with the name they are refused by. -/
def refused : List (String × String) :=
  [("near", "NEAR"), ("regexp", "REGEXP")]

def refusal (shown : String) : Failure :=
  .ofKind .unsupportedOperator
    (shown ++ " operator is not implemented on Gremlin!") []

/-- Keys that only keep the siblings of a filter apart. -/
def isIndex : Value → Bool
  | .int _ => true
  | v => (v.text?.map Text.allDigits).getD false

/-- What the key of an entry says about its value. -/
inductive KeyRole where
  | join (junction : Junction)
  | refused (shown : String)
  | operator (name : String)
  | index
  | field

def roleOf (key : Value) : KeyRole :=
  match key.text? with
  | none => if isIndex key then .index else .field
  | some s =>
    if s = "and" then .join .all
    else if s = "or" then .join .any
    else match List.lookup s refused with
      | some shown => .refused shown
      | none =>
        if (Operator.ofName? s).isSome then .operator s
        else if isIndex key then .index
        else .field

/-- The operand of an operator as conditions hold it: a pair for a range, a
list for a choice. -/
def operandOf (op : Operator) (v : Value) : Checked Value :=
  match op with
  | .between =>
    match v.sequence? with
    | some [low, high] => .ok (.tuple [low, high])
    | _ => .error (.validation "between requires a [low, high] pair" [])
  | .inq | .nin =>
    match v with
    | .list xs | .tuple xs | .set xs => .ok (.list xs)
    | _ => .error (.validation (op.name ++ " requires a list of values") [])
  | _ => .ok v

/-- One entry of a mapping of operators. -/
def parseOperator (field key v : Value) : Checked Condition :=
  match key.text?.bind fun s => List.lookup s refused with
  | some shown => .error (refusal shown)
  | none =>
    match key.text?.bind Operator.ofName?, v with
    | none, _ => do
        .error (.validation ("unknown operator '" ++ (← key.plain) ++ "'") [])
    | some _, .null => do
      .error (.validation
        ("operator '" ++ (← key.plain) ++ "' requires a value") [])
    | some op, v => do .ok (.compare field op (← operandOf op v) false)

def parseOperators (field : Value) (es : Entries) : Checked (List Condition) :=
  es.mapM fun e => parseOperator field e.1 e.2

/-- The condition of a field with what it holds. -/
def parseField (resolve : Value → Value) (key v : Value) :
    Checked (List Condition) :=
  match v with
  | .map ops => parseOperators (resolve key) ops
  | v =>
    if v.isScalar then .ok [.compare (resolve key) .eq v true]
    else do
      .error (.validation ("unsupported value for field '" ++ (← key.plain)
        ++ "'") [(.text "type", .text v.kind)])

mutual

/-- The groups that a filter is made of: one for each filter of a row, or a
single one. `resolve` gives the key of a field. -/
def groups (resolve : Value → Value) : Value → Checked (List (List Condition))
  | .null => .ok [[]]
  | .list items => rowGroups resolve items
  | .tuple items => rowGroups resolve items
  | .map entries => do .ok [← entryConditions resolve entries]
  | v =>
      .error (.validation "where clause must be a mapping"
        [(.text "type", .text v.kind)])
termination_by structural v => v

/-- The conditions of each filter of a row. -/
def rowGroups (resolve : Value → Value) :
    List Value → Checked (List (List Condition))
  | [] => .ok []
  | v :: vs => do
    let own ← groups resolve v
    let rest ← rowGroups resolve vs
    .ok (own.flatten :: rest)
termination_by structural vs => vs

/-- The conditions of the entries of a mapping, one after the other. -/
def entryConditions (resolve : Value → Value) :
    List (Value × Value) → Checked (List Condition)
  | [] => .ok []
  | (key, v) :: es => do
    let own ← match roleOf key with
      | .join junction => do .ok [.join junction (← groups resolve v)]
      | .refused shown => .error (refusal shown)
      | .operator name =>
        .error (.validation
          ("operator '" ++ name ++ "' must be nested under a field") [])
      | .index => do .ok (← groups resolve v).flatten
      | .field => parseField resolve key v
    let rest ← entryConditions resolve es
    .ok (own ++ rest)
termination_by structural es => es

end

/-- The conditions of a filter, all of which have to hold. -/
def parse (resolve : Value → Value) (filter : Value) :
    Checked (List Condition) :=
  (groups resolve filter).map List.flatten

end GraphMapper.Filter

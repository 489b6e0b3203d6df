/-
The JSON text that composite values are stored as.

Lists and tuples are arrays and mappings are objects, with a blank behind each
comma and colon. A key may be a text, a number, a truth value or nothing, and
is written as a text; with any other key the value has no JSON text. Whatever
JSON has no form for is written as the text of its plain form, if it has one.
An integer that is too long to be written out has no JSON text either.
-/
import GraphMapper.Value.Printer

namespace GraphMapper.Value

/-- The JSON text of values that hold no other values in JSON. -/
def jsonAtom : Value → Checked String
  | .null => .ok "null"
  | .bool b => .ok (if b then "true" else "false")
  | .int n => Printer.integer n
  | .float x => .ok (DecimalLayout.json.text x)
  | v =>
    match v.text? with
    | some s => .ok (Text.json s)
    | none => v.plain.map Text.json

/-- The characters of a key, before they are quoted. -/
def jsonKey : Value → Checked String
  | .null => .ok "null"
  | .bool b => .ok (if b then "true" else "false")
  | .int n => Printer.integer n
  | .float x => .ok (DecimalLayout.json.text x)
  | v => v.words

mutual

/-- The JSON text. -/
def json : Value → Checked String
  | .list items =>
      (jsonItems items).map fun parts => "[" ++ Printer.joined parts ++ "]"
  | .tuple items =>
      (jsonItems items).map fun parts => "[" ++ Printer.joined parts ++ "]"
  | .map entries =>
    (jsonEntries entries).map fun parts =>
      "\x7b" ++ Printer.joined parts ++ "\x7d"
  | v => jsonAtom v
termination_by structural v => v

/-- The JSON texts of values in a row. -/
def jsonItems : List Value → Checked (List String)
  | [] => .ok []
  | v :: vs => do .ok ((← json v) :: (← jsonItems vs))
termination_by structural vs => vs

/-- The JSON texts of entries, each key with its value. -/
def jsonEntries : List (Value × Value) → Checked (List String)
  | [] => .ok []
  | (k, v) :: es => do
    let key ← jsonKey k
    let value ← json v
    .ok ((Text.json key ++ ": " ++ value) :: (← jsonEntries es))
termination_by structural es => es

end

end GraphMapper.Value

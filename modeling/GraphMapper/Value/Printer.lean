/-
The texts of values in messages.

A value has two forms. Its *literal* form shows what kind of value it is: texts
are quoted, symbols carry their vocabulary. Its *plain* form differs from that
only for values that have a text of their own (texts, symbols, dates); inside
of other values the literal form is used, so a list shows its texts quoted.
What stands for something in the graph (an element, a property, a path, a
predicate) shows its parts in their plain form.

Not every value has a text. An edge names its label in the middle of its own,
so it has none when the label is no text, and an integer is written out up to a
number of digits only. What has no text leaves whatever it is a part of without
one, and the first such part decides how that fails: by its type, or by its
value.
-/
import GraphMapper.Calendar.Iso
import GraphMapper.Failure
import GraphMapper.Number.Reader
import GraphMapper.Number.Shortest
import GraphMapper.Text.Quoted

namespace GraphMapper

namespace Printer

/-- The decimal form of an integer. It has as many digits as an integer can be
read with, at most. -/
def integer (n : Int) : Checked String :=
  if (Nat.toDigits 10 n.natAbs).length ≤ Numeral.maxIntegerDigits then
    .ok (toString n)
  else .error (.slip .value)

/-- Texts with a comma and a blank between them. -/
def joined (parts : List String) : String := String.intercalate ", " parts

/-- The offset of a date-time as a distance in days, seconds and microseconds;
all parts but the days are positive. -/
def offsetLiteral (o : Offset) : String :=
  if o.micros = 0 then "datetime.timezone.utc"
  else
    let days := Int.fdiv o.micros 86400000000
    let rest := (Int.fmod o.micros 86400000000).toNat
    let part (name : String) (n : Int) : List String :=
      if n = 0 then [] else [name ++ "=" ++ toString n]
    "datetime.timezone(datetime.timedelta(" ++
      joined (part "days" days ++ part "seconds" (rest / 1000000 : Nat) ++
        part "microseconds" (rest % 1000000 : Nat)) ++ "))"

def dateLiteral (d : Date) : String :=
  "datetime.date("
    ++ joined (([d.year, d.month, d.day] : List Nat).map toString) ++ ")"

/-- Seconds and microseconds are left out from the end when they are zero. -/
def dateTimeLiteral (t : DateTime) : String :=
  let micro := t.time.micro.val
  let second := t.time.second.val
  let fine :=
    if micro ≠ 0 then [second, micro]
    else if second ≠ 0 then [second]
    else []
  let numbers := [t.date.year, t.date.month, t.date.day, t.time.hour.val,
    t.time.minute.val] ++ fine
  let offset := t.offset.map fun o => "tzinfo=" ++ offsetLiteral o
  "datetime.datetime(" ++ joined (numbers.map toString ++ offset.toList) ++ ")"

/-- A member of a vocabulary with its value in it. -/
def symbolLiteral (s : Symbol) : String :=
  let value := match s with
    | .reserved r => toString r.number
    | .sorting o => toString o.number
    | .direction d => Text.literal d.name
    | .fieldType t => Text.literal t.word
  "<" ++ s.vocabulary ++ "." ++ s.name ++ ": " ++ value ++ ">"

/-- A tuple's items; a single one is followed by a comma. -/
def tupleText : List String → String
  | [one] => "(" ++ one ++ ",)"
  | parts => "(" ++ joined parts ++ ")"

def setText (parts : List String) : String :=
  if parts.isEmpty then "set()" else "\x7b" ++ joined parts ++ "\x7d"

/-- The beginning of a text, as it is shown for the value of a property. -/
def clipped (s : String) : String := String.ofList (s.toList.take 20)

end Printer

namespace Value

/-- The literal form of values that hold no other values and always have one,
and nothing for the others. -/
def literalAtom : Value → String
  | .null => "None"
  | .bool b => if b then "True" else "False"
  | .float x => DecimalLayout.plain.text x
  | .text s => Text.literal s
  | .bytes octets => Text.literalOctets octets
  | .date d => Printer.dateLiteral d
  | .dateTime t => Printer.dateTimeLiteral t
  | .symbol s => Printer.symbolLiteral s
  | .datatype t => "<class " ++ Text.literal t.qualifiedName ++ ">"
  | .foreign name _ => name
  | _ => ""

/-- The plain form of a value, given its literal form. -/
def plainFrom (literal : Checked String) : Value → Checked String
  | .text s => .ok s
  | .symbol s => .ok (s.vocabulary ++ "." ++ s.name)
  | .date d => .ok (Iso.dateText d)
  | .dateTime t => .ok (Iso.text ' ' t)
  | _ => literal

/-- The characters of a value that has to count as text. -/
def words (v : Value) : Checked String :=
  match v.text? with
  | some s => .ok s
  | none => .error (.slip .type)

mutual

/-- The literal form. -/
def literal : Value → Checked String
  | .int n => Printer.integer n
  | .list items => do .ok ("[" ++ Printer.joined (← literals items) ++ "]")
  | .tuple items => do .ok (Printer.tupleText (← literals items))
  | .set items => do .ok (Printer.setText (← literals items))
  | .map entries => do
      .ok ("\x7b" ++ Printer.joined (← entryLiterals entries) ++ "\x7d")
  | .vertex id _ => do .ok ("v[" ++ (← plainFrom (literal id) id) ++ "]")
  | .edge id label outId _ inId _ => do
    let id ← plainFrom (literal id) id
    let origin ← plainFrom (literal outId) outId
    let label ← label.words
    let target ← plainFrom (literal inId) inId
    .ok ("e[" ++ id ++ "][" ++ origin ++ "-" ++ label ++ "->" ++ target ++ "]")
  | .vertexProperty _ label value => do
    let label ← plainFrom (literal label) label
    let value ← plainFrom (literal value) value
    .ok ("vp[" ++ label ++ "->" ++ Printer.clipped value ++ "]")
  | .property key value => do
    let key ← plainFrom (literal key) key
    let value ← plainFrom (literal value) value
    .ok ("p[" ++ key ++ "->" ++ Printer.clipped value ++ "]")
  | .path objects => do
      .ok ("path[" ++ Printer.joined (← plains objects) ++ "]")
  | .traverser object => plainFrom (literal object) object
  | .predicate _ op operand .null => do
    .ok (op.name ++ "(" ++ (← plainFrom (literal operand) operand) ++ ")")
  | .predicate _ op operand bound => do
    let operand ← plainFrom (literal operand) operand
    .ok (op.name ++ "(" ++ operand ++ ","
      ++ (← plainFrom (literal bound) bound) ++ ")")
  | .traversal steps => do
    if steps.isEmpty then .ok ""
    else .ok ("[" ++ Printer.joined (← stepLiterals steps) ++ "]")
  | v => .ok (literalAtom v)
termination_by structural v => v

/-- The literal forms of values in a row. -/
def literals : List Value → Checked (List String)
  | [] => .ok []
  | v :: vs => do .ok ((← literal v) :: (← literals vs))
termination_by structural vs => vs

/-- The plain forms of values in a row. -/
def plains : List Value → Checked (List String)
  | [] => .ok []
  | v :: vs => do .ok ((← plainFrom (literal v) v) :: (← plains vs))
termination_by structural vs => vs

/-- The literal forms of entries, each key with its value. -/
def entryLiterals : List (Value × Value) → Checked (List String)
  | [] => .ok []
  | (k, v) :: es => do
    let key ← literal k
    let value ← literal v
    .ok ((key ++ ": " ++ value) :: (← entryLiterals es))
termination_by structural es => es

/-- The literal forms of steps in a row. -/
def stepLiterals : List Step → Checked (List String)
  | [] => .ok []
  | s :: ss => do .ok ((← stepLiteral s) :: (← stepLiterals ss))
termination_by structural ss => ss

/-- A step shows its name and its arguments as items of one row. -/
def stepLiteral : Step → Checked String
  | .call name args => do
    .ok ("[" ++ Printer.joined (Text.literal name.text :: (← literals args))
      ++ "]")
termination_by structural s => s

end

/-- The plain form. -/
def plain (v : Value) : Checked String := plainFrom v.literal v

end Value

end GraphMapper

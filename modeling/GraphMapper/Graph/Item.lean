/-
What flows through a traversal: the start, elements, properties of elements,
rows, counts and groups of these. An item is looked at by the steps it meets; a
step that needs what the item has not is a slip.
-/
import GraphMapper.Graph.Store

namespace GraphMapper

inductive Item where
  | start
  | element (h : Handle)
  | property (owner : Handle) (key : Value)
  | row (entries : Entries)
  | number (n : Nat)
  | group (items : List Item)

namespace Graph

/-- The handle of an item that is an element. -/
def handle (item : Item) : Checked Handle :=
  match item with
  | .element h => .ok h
  | _ => .error (.slip .attribute)

/-- What an item has under a key; the reserved keys address id and label of an
element. -/
def read (g : Graph) (key : Value) (item : Item) : Checked (Option Value) :=
  match item with
  | .row es => Entries.find key es
  | .element h =>
    match key with
    | .symbol (.reserved .id) => .ok (some (g.element h).id)
    | .symbol (.reserved .label) => .ok (some (g.element h).label)
    | key => Entries.find key (g.element h).props
  | _ => .error (.slip .attribute)

/-- Id and label of an element under the reserved keys. -/
def reference (e : Element) : Entries := [(.idKey, e.id), (.labelKey, e.label)]

/-- The ends of an edge as rows show them. -/
def endRows (g : Graph) (ends : Ends) : Checked Entries :=
  match ends.target with
  | some target =>
    .ok [(.symbol (.direction .inward), .map (reference (g.element target))),
      (.symbol (.direction .outward),
        .map (reference (g.element ends.origin)))]
  | none => .error (.slip .attribute)

/-- The row of an element: id, label, the properties under the keys (all of
them when there are no keys), and for an edge its ends. -/
def row (g : Graph) (keys : List Value) (e : Element) : Checked Entries := do
  let chosen := e.props.filter fun p => keys.isEmpty || p.1.isIn keys
  let ends ← match e.ends with
    | some ends => g.endRows ends
    | none => .ok []
  .ok ((chosen ++ ends).foldl (fun acc p => Entries.insert p.1 p.2 acc)
    (reference e))

/-- An element as results hold it. -/
def elementValue (g : Graph) (e : Element) : Checked Value :=
  match e.ends with
  | none => .ok (.vertex e.id e.label)
  | some ends =>
    match ends.target with
    | some target =>
      let origin := g.element ends.origin
      let target := g.element target
      .ok (.edge e.id e.label origin.id origin.label target.id target.label)
    | none => .error (.slip .attribute)

mutual

/-- An item as results hold it. -/
def result (g : Graph) : Item → Checked Value
  | .start => .ok (.foreign "object" 0)
  | .element h => g.elementValue (g.element h)
  | .property _ _ => .ok (.foreign "MockProperty" 0)
  | .row es => .ok (.map es)
  | .number n => .ok (.int n)
  | .group items => do .ok (.list (← results g items))
termination_by structural item => item

def results (g : Graph) : List Item → Checked (List Value)
  | [] => .ok []
  | item :: items => do
    let v ← result g item
    let vs ← results g items
    .ok (v :: vs)
termination_by structural items => items

end

end Graph

end GraphMapper

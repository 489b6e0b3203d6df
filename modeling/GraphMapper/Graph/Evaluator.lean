/-
Running traversals on a graph.

A step takes all items at once and gives the items for the next step; changes
to the graph are made on the way and stay when a later step fails. Two steps
look ahead: `order` takes its keys from the `by` steps behind it, and `addE`
waits for a `to` step behind it before its edges enter the graph. A run
therefore carries a phase that says what such steps stand behind; anywhere else
they have no meaning.

# Failing half way

A run is a function of the graph that gives an answer or a failure, and in
either case the graph that it has left (`Run`). Nothing is taken back when it
fails: that is how a server without transactions of its own behaves, and what
is said of failing operations has to be said of such graphs too.

# Recursion

Steps hold values, and a value may be a traversal that is run for each item. So
running steps, running one argument and running a row of arguments are defined
together, by structural recursion on steps and values, and no fuel is needed: a
traversal cannot run itself.
-/
import GraphMapper.Graph.Item
import GraphMapper.Sorting.Stable
import GraphMapper.Value.Order

namespace GraphMapper

/-- A run on a graph, which it may change and fail on. -/
abbrev Run := ExceptT Failure (StateM Graph)

namespace Run

/-- A run that fails. -/
def fail {α : Type} (e : Failure) : Run α := throw e

/-- A run that fails with a slip. -/
def slip {α : Type} (s : Slip) : Run α := throw (.slip s)

/-- What is read off the graph as it is. -/
def ask {α : Type} (f : Graph → Checked α) : Run α := do
  match f (← get) with
  | .ok a => pure a
  | .error e => throw e

/-- A change that gives something back. -/
def change {α : Type} (f : Graph → Graph × α) : Run α := do
  let (g, a) := f (← get)
  set g
  pure a

/-- The items that a test holds of, which may itself change the graph. -/
def keep (p : Item → Run Bool) : List Item → Run (List Item)
  | [] => pure []
  | item :: items => do
    let kept ← p item
    let rest ← keep p items
    pure (if kept then item :: rest else rest)

/-- What `f` makes of each item, one after the other. -/
def each {α : Type} (f : Item → Run α) : List Item → Run (List α)
  | [] => pure []
  | item :: items => do
    let a ← f item
    let rest ← each f items
    pure (a :: rest)

end Run

namespace Graph

-- =============================================================== sources

/-- The elements under the ids, or all of an index. -/
def select (index : Index) (ids : List Value) : Checked (List Handle) :=
  if ids.isEmpty then .ok (index.map (·.2))
  else do
    let found ← ids.mapM fun id => Entries.find id index
    .ok (found.filterMap id)

/-- For every item that arrives, the elements under the ids. -/
def source (index : Graph → Index) (ids : List Value) (items : List Item) :
    Run (List Item) := do
  let found ← Run.each (fun _ => Run.ask fun g => select (index g) ids) items
  pure (found.flatten.map .element)

-- =============================================================== filters

/-- What a test says that cannot be put to a value: the value does not pass. -/
def unlessType (answer : Checked Bool) : Checked Bool :=
  match answer with
  | .error (.slip .type) => .ok false
  | answer => answer

/-- A relation holds of two values that have an order. -/
def holds (r : Relation) (a b : Value) : Bool :=
  Value.related? r a b == some true

/-- Whether a value passes a test. A comparison of values without an order does
not pass, and neither does a choice that the value cannot be looked for in,
however it is put. -/
def passes (v test : Value) : Checked Bool :=
  match test with
  | .predicate _ op x bound =>
    match op with
    | .eq => .ok (v.equal x)
    | .neq => .ok !(v.equal x)
    | .gt => .ok (holds .greater v x)
    | .gte => .ok (holds .atLeast v x)
    | .lt => .ok (holds .less v x)
    | .lte => .ok (holds .atMost v x)
    | .between => .ok (holds .atMost x v && holds .less v bound)
    | .within => unlessType (x.contains v)
    | .without => unlessType ((x.contains v).map (!·))
    | .containing =>
      match v.text?, x.text? with
      | some s, some part => .ok (Text.contains s part)
      | _, _ => .ok false
    | .notContaining =>
      match v.text?, x.text? with
      | some s, some part => .ok !(Text.contains s part)
      | _, _ => .ok false
    | .other name =>
      .error (.notImplemented
        ("mock does not evaluate predicate " ++ Text.literal name))
  | x => .ok (v.equal x)

/-- An item has something under the key that passes the test. -/
def has (g : Graph) (key test : Value) (item : Item) : Checked Bool := do
  match ← g.read key item with
  | some v => passes v test
  | none => .ok false

def hasLabel (g : Graph) (labels : List Value) (item : Item) :
    Checked Bool := do
  .ok ((g.element (← handle item)).label.isIn labels)

/-- A bound of a slice; nothing is no bound. -/
def sliceBound (v : Value) : Checked (Option Int) :=
  match v with
  | .null => .ok none
  | .bool b => .ok (some (if b then 1 else 0))
  | .int n => .ok (some n)
  | _ => .error (.slip .type)

/-- The number of items that a bound counts off from the front; a negative one
counts from the end. -/
def slicePlace (length : Nat) (n : Int) : Nat :=
  if 0 ≤ n then n.toNat else (length + n).toNat

def skip (n : Option Int) (items : List Item) : List Item :=
  match n with
  | some n => items.drop (slicePlace items.length n)
  | none => items

def limit (n : Option Int) (items : List Item) : List Item :=
  match n with
  | some n => items.take (slicePlace items.length n)
  | none => items

-- ============================================================= mutations

/-- Writes under a key, or gives the element another id. The old id is given up
before the new one is found to be no key. -/
def setProperty (key value : Value) (item : Item) : Run Unit := do
  let h ← Run.ask fun _ => handle item
  match key with
  | .symbol (.reserved .id) =>
    let e ← Run.change fun g => (g, g.element h)
    if e.isEdge then modify fun g => g.unindexEdge e.id
    else modify fun g => g.unindexVertex e.id
    modify fun g => g.update h fun e => { e with id := value }
    if !value.isKey then Run.fail value.keyFault
    if e.isEdge then modify fun g => g.indexEdge value h
    else modify fun g => g.indexVertex value h
  | key =>
    if !key.isKey then Run.fail key.keyFault
    modify fun g => g.update h fun e =>
      { e with props := Entries.insert key value e.props }

def drop (item : Item) : Run Unit :=
  match item with
  | .property owner key =>
    modify fun g => g.update owner fun e =>
      { e with props := Entries.erase key e.props }
  | .element h => modify fun g => g.dropElement h
  | _ => Run.slip .attribute

/-- The properties of an element under the keys, or all of them. -/
def properties (g : Graph) (keys : List Value) (item : Item) :
    Checked (List Item) := do
  let h ← handle item
  let own := Entries.keys (g.element h).props
  .ok ((own.filter fun k => keys.isEmpty || k.isIn keys).map (.property h))

/-- A new edge that starts at an item, which has to be a vertex. It waits
outside the graph. -/
def startEdge (args : List Value) (item : Item) : Run Item := do
  match args with
  | [] => Run.slip .index
  | label :: _ =>
    let refused : Failure := .refusal "addE() requires a vertex traverser"
    match item with
    | .element h =>
      if (← Run.change fun g => (g, (g.element h).isEdge)) then
        Run.fail refused
      else pure (.element (← Run.change fun g => g.addEdge label h))
    | _ => Run.fail refused

/-- The vertex that an edge starts at. -/
def originOf (g : Graph) (edge : Item) : Checked Item := do
  match (g.element (← handle edge)).ends with
  | some ends => .ok (.element ends.origin)
  | none => .error (.slip .attribute)

/-- Gives an edge its target: the first of the items found for it. What is not
an element is no end that anything could be read from. -/
def link (edge : Item) (found : List Item) : Run Unit := do
  match found with
  | [] => Run.fail (.refusal "The provided traverser does not map to a value")
  | target :: _ =>
    let h ← Run.ask fun _ => handle edge
    let target := match target with
      | .element t => some t
      | _ => none
    modify fun g => g.update h fun e =>
      { e with ends := e.ends.map fun ends => { ends with target := target } }

/-- Puts edges that have waited into the graph. -/
def enterEdges (edges : List Item) : Run Unit := do
  let _ ← Run.each (fun edge => do
    let h ← Run.ask fun _ => handle edge
    modify fun g => g.indexEdge (g.element h).id h) edges

-- ================================================================ sorting

/-- A key of an order from the arguments of a `by` step. -/
def sortKey (args : List Value) : Checked (Value × Sorting) :=
  match args with
  | [] => .error (.slip .index)
  | [key] => .ok (key, .ascending)
  | key :: .symbol (.sorting way) :: _ => .ok (key, way)
  | key :: _ => .ok (key, .ascending)

/-- The keys of an order: those of the `by` steps in front. -/
def sortKeys : List Step → Checked (List (Value × Sorting))
  | .call .orderBy args :: rest => do
    let key ← sortKey args
    let keys ← sortKeys rest
    .ok (key :: keys)
  | _ => .ok []

/-- Whether one value comes before another; two values without an order cannot
be sorted. -/
def before (a b : Value × Item) : Checked Bool :=
  match Value.related? .less a.1 b.1 with
  | some less => .ok less
  | none => .error (.slip .type)

/-- Sorts by one key. What an item has not counts as nothing. Descending means
that the reversed items are sorted and reversed again, which keeps the order of
equal ones. -/
def sortBy (g : Graph) (key : Value × Sorting) (items : List Item) :
    Checked (List Item) := do
  let keyed ← items.mapM fun item => do
    .ok ((← g.read key.1 item).getD .null, item)
  match key.2 with
  | .ascending => do .ok ((← Sorting.sort before keyed).map (·.2))
  | .descending => do
      .ok ((← Sorting.sort before keyed.reverse).reverse.map (·.2))

/-- Sorts by every key, the last one first, so that the first one weighs
most. -/
def sortAll (g : Graph) :
    List (Value × Sorting) → List Item → Checked (List Item)
  | [], items => .ok items
  | key :: keys, items => do g.sortBy key (← g.sortAll keys items)

-- ================================================================== steps

def unknownStep {α : Type} (name : StepName) : Run α :=
  Run.fail (.notImplemented
    ("mock does not evaluate step " ++ Text.literal name.text))

/-- A step that needs neither its neighbours nor other traversals. A known step
with a number of arguments that it does not take is a slip. -/
def perform (name : StepName) (args : List Value) (items : List Item) :
    Run (List Item) :=
  match name, args with
  | .vertices, ids => source (·.vertices) ids items
  | .edges, ids => source (·.edges) ids items
  | .hasLabel, labels =>
      Run.keep (fun item => Run.ask fun g => g.hasLabel labels item) items
  | .has, [key, test] =>
      Run.keep (fun item => Run.ask fun g => g.has key test item) items
  | .identity, [] => pure items
  | .elementMap, keys =>
    Run.each (fun item => Run.ask fun g => do
      .ok (.row (← g.row keys (g.element (← handle item))))) items
  | .skip, [n] => do pure (skip (← Run.ask fun _ => sliceBound n) items)
  | .limit, [n] => do pure (limit (← Run.ask fun _ => sliceBound n) items)
  | .count, [] => pure [.number items.length]
  | .fold, [] => pure [.group items]
  | .drop, [] => do
    let _ ← Run.each drop items
    pure []
  | .addVertex, [label] =>
    Run.each (fun _ => do
      pure (.element (← Run.change fun g => g.addVertex label .null []))) items
  | .property, [key, value] => do
    let _ ← Run.each (setProperty key value) items
    pure items
  | .properties, keys => do
    let found ← Run.each (fun item => Run.ask fun g =>
      g.properties keys item) items
    pure found.flatten
  | .other _, _ | .orderBy, _ | .to, _ => unknownStep name
  | _, _ => Run.slip .type

/-- What the next step stands behind. -/
inductive Phase where
  | plain
  /-- Behind `order`: its keys have been taken already. -/
  | sorted
  /-- Behind `addE`: the items are edges that wait for their target. -/
  | linking

/-- The first step, if any, links edges to their targets. -/
def startsWithTo : List Step → Bool
  | .call .to _ :: _ => true
  | _ => false

mutual

/-- Runs steps on items. -/
def run : Phase → List Step → List Item → Run (List Item)
  | _, [], items => pure items
  | phase, .call name args :: rest, items =>
    match name, phase with
    | .order, _ => do
      let sorted ← Run.ask fun g => do g.sortAll (← sortKeys rest) items
      run .sorted rest sorted
    | .orderBy, .sorted => run .sorted rest items
    | .addEdge, _ => do
      let edges ← Run.each (startEdge args) items
      if startsWithTo rest then run .linking rest edges
      else do
        enterEdges edges
        run .plain rest edges
    | .to, .linking => do
      let _ ← Run.each (fun edge => linkBy args edge) items
      enterEdges items
      run .plain rest items
    | .or, _ => do
      let kept ← Run.keep (fun item => anyChild args item) items
      run .plain rest kept
    | .and, _ => do
      let kept ← Run.keep (fun item => allChildren args item) items
      run .plain rest kept
    | .sideEffect, _ => do
      if args.length ≠ 1 then Run.slip .type
      let _ ← Run.each (fun item => allChildren args item) items
      run .plain rest items
    | name, _ => do
      let next ← perform name args items
      run .plain rest next
termination_by structural _ steps => steps

/-- Runs an argument that is a traversal on one item. -/
def child : Value → Item → Run (List Item)
  | .traversal steps, item => run .plain steps [item]
  | _, _ => Run.slip .attribute
termination_by structural v => v

/-- Some traversal finds something from the item; those behind the first such
are not run. -/
def anyChild : List Value → Item → Run Bool
  | [], _ => pure false
  | v :: vs, item => do
    let found ← child v item
    if found.isEmpty then anyChild vs item else pure true
termination_by structural vs => vs

/-- Every traversal finds something from the item; those behind the first that
does not are not run. -/
def allChildren : List Value → Item → Run Bool
  | [], _ => pure true
  | v :: vs, item => do
    let found ← child v item
    if found.isEmpty then pure false else allChildren vs item
termination_by structural vs => vs

/-- Links an edge to what the first argument finds from the vertex that the
edge starts at. -/
def linkBy : List Value → Item → Run Unit
  | [], _ => Run.slip .index
  | v :: _, edge => do
    let origin ← Run.ask fun g => g.originOf edge
    let found ← child v origin
    link edge found
termination_by structural vs => vs

end

/-- Runs a traversal from the start. -/
def evaluate (g : Graph) (steps : List Step) : Checked (List Item) × Graph :=
  (ExceptT.run (run .plain steps [.start])).run g

end Graph

end GraphMapper

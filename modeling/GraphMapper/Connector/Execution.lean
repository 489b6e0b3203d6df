/-
From a traversal to a result: a traversal is submitted, or becomes the pending
work of a transaction.

A mutation under a transaction starts behind the work that is pending there.
That work may leave no item or many, and a change is made once for each item
that arrives, so a `fold` in between makes one item of whatever there is.

# Submissions and modes

Outside of transactions a traversal is submitted with the retry policy of the
model, if there is one, and its result is read as the mode says: nothing, the
first item, or all of them. Results are brought into normal form unless the
caller wants them as they have come.
-/
import GraphMapper.Connector.State

namespace GraphMapper

namespace Act

/-- Where a mutation starts: at nothing, or behind the pending work of its
transaction. -/
def source (o : Options) : Act (List Step) :=
  match o.joined with
  | none => pure []
  | some tx => do
    match ← ask fun c => c.transactions.pending tx with
    | none => pure []
    | some steps => pure (steps ++ [Step.call .fold []])

/-- Makes a traversal the pending work of a transaction. -/
def store (tx : String) (steps : List Step) : Act Unit :=
  run fun c =>
    match c.transactions.store tx (some steps) with
    | .ok transactions => (.ok (), { c with transactions })
    | .error e => (.error e, c)

/-- The model of a submission; none is looked for when there is no name. -/
def modelFor (model : Option String) : Act (Option Model) :=
  match named model with
  | none => pure none
  | some name => do pure (some (← ask fun c => c.registry.get (some name)))

/-- Runs a traversal for a model: the normal result, or the raw one if that is
asked for. Under a transaction nothing is submitted and there is no result. -/
def execute (model : Option String) (steps : List Step) (o : Options)
    (mode : Mode) :
    Act Value := do
  match o.joined with
  | some tx =>
    store tx steps
    pure .null
  | none =>
    let m ← modelFor model
    let raw ← run (Connector.host.submitWithRetry m steps mode)
    if mode = .iterate then pure .null
    else if o.parse then
      check (Result.present ((m.map Model.isEdge).getD false) raw)
    else pure raw

/-- Runs a traversal with a mode and options that have yet to be read. -/
def executeGiven (model : Option String) (steps : List Step)
    (options mode : Value) :
    Act Value := do
  let mode ← check (Mode.parse mode)
  let o ← check (Options.ofValue options)
  execute model steps o mode

/-- Submits a traversal once. -/
def submitOnce (steps : List Step) (mode : Mode) : Act Value :=
  run (Connector.host.submit steps mode)

/-- The traversal of an operation for a model, behind a source that is found
first. -/
def build (model : Option String) (source : Act (List Step))
    (operation : Model → Build Unit) :
    Act (List Step) := do
  let steps ← source
  let m ← ask fun c => c.registry.get model
  check (Build.traversalFrom steps (operation m))

/-- The integer in a result; nothing counts as zero. -/
def countOf (v : Value) : Checked Int := if v.isGiven then v.toInt else .ok 0

/-- An id that says something. -/
def requireId (id : Value) : Checked Unit :=
  if id.equal .null || id.equal (.text "") then
    .error (.validation "ID is required" [])
  else .ok ()

end Act

end GraphMapper

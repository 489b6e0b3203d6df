/-
The operations of a connector: create, read, count, destroy, replace and update
records of a model, and transactions.

Arguments are read before an operation is observed, except where an operation
consists of others: it then is observed as these. Reads never join a
transaction.

# How an operation is put together

An operation reads its options, finds the model, builds a traversal behind a
source, executes it, and reads a result. Each of these can fail, and what comes
before has happened by then. Options and ids are read first, and outside of
what is observed; the model is found inside.

# Reads and changes

A read builds from nothing and is submitted at once, whatever transaction its
options name. A change builds behind the pending work of its transaction and
becomes that work. A destruction is both: the count is a read, on the graph as
it is, and the drop is a change.
-/
import GraphMapper.Connector.Execution

namespace GraphMapper

namespace Act

/-- A result of an operation that counts. -/
def counted (n : Value) : Value := .map [(.text "count", n)]

-- ================================================================ create

/-- Creates an element and gives back its id, or nothing under a
transaction. -/
def create (model : Option String) (record options : Value) : Act Value := do
  let o ← check (Options.ofValue options)
  observed "create" model do
    let steps ← build model (source o) fun m => Query.create m record
    match ← execute model steps o .next with
    | .map es => pure (Entries.field "id" es)
    | _ => pure .null

-- ================================================================= reads

/-- One row of a query as a record: fields under their names, with the id under
the primary key, the references of an edge, and only the fields that were asked
for. -/
def toRecord (m : Model) (fields : Option (List Value)) (row : Value) :
    Checked Value :=
  match row with
  | .map es => do
    let own ← Record.fromStorage m row
    let copy (key source : Value) (acc : Entries) : Entries :=
      if !Entries.has key acc && Entries.has source es then
        Entries.insert key (Entries.get source es) acc
      else acc
    let withId := copy m.idField (.text "id") own
    let all :=
      if m.isEdge then
        Reference.fields.foldl (fun acc f => copy f f acc) withId
      else withId
    match fields with
    | some fs => .ok (.map (all.filter fun e => e.1.isIn fs))
    | none => .ok (.map all)
  | row => .ok row

/-- The rows of a result; nothing counts as no rows. -/
def rowsOf (v : Value) : Checked (List Value) :=
  if v.isGiven then v.items else .ok []

/-- The records that a filter lets through, or the raw result of the server. -/
def all (model : Option String) (filter options : Value) : Act Value := do
  let o ← check (Options.ofValue options)
  observed "all" model do
    let m ← ask fun c => c.registry.get model
    let query := if filter.isGiven then filter
      else .map [(.text "where", .map [])]
    let steps ← build model (pure []) fun m => Query.query m query
    let rows ← execute model steps { o with transaction := none } .toList
    if o.parse then
      let fields ← check (query.entries >>= Projection.fields)
      let items ← check (rowsOf rows)
      pure (.list (← check (items.mapM (toRecord m fields))))
    else pure rows

/-- The first record, or nothing. -/
def firstOf (records : Value) : Value :=
  match records with
  | .list (r :: _) => r
  | _ => .null

/-- A filter with entries in place of its own. -/
def withEntries (filter : Value) (es : List (Value × Value)) :
    Checked Value := do
  let own ← match filter with
    | .map own => .ok own
    | v => if v.isGiven then .error (.slip .type) else .ok []
  .ok (.map (es.foldl (fun acc e => Entries.insert e.1 e.2 acc) own))

/-- Entries that cut a result down to its first record. -/
def onlyFirst : List (Value × Value) :=
  [(.text "limit", .int 1), (.text "skip", .int 0)]

def findOne (model : Option String) (filter : Value) : Act Value := do
  let query ← check (withEntries filter onlyFirst)
  pure (firstOf (← all model query .null))

def findById (model : Option String) (id filter : Value) : Act Value := do
  let m ← ask fun c => c.registry.get model
  check (requireId id)
  let query ← check
    (withEntries filter ((.text "where", Query.byId m id) :: onlyFirst))
  pure (firstOf (← all model query .null))

def presence (model : Option String) (id : Value) : Act Value :=
  observed "exists" model do
    let steps ← build model (pure []) fun m => Query.presence m id
    let n ← check (countOf (← execute model steps .standard .next))
    pure (.bool (decide (0 < n)))

/-- The number of elements that a filter lets through. -/
def count (model : Option String) (filter : Value) : Act Int :=
  observed "count" model do
    let steps ← build model (pure []) fun m => Query.count m filter
    check (countOf (← execute model steps .standard .next))

-- =============================================================== destroy

/-- Drops the elements that a filter lets through, after counting them. The
count is always that of the graph as it is, outside of any transaction; when it
is zero nothing is dropped. -/
def destroyAll (model : Option String) (filter options : Value) :
    Act Value := do
  let o ← check (Options.ofValue options)
  let matched ← count model filter
  if matched = 0 then pure (counted (.int 0))
  else
    observed "destroy_all" model do
      let steps ← build model (source o) fun m => Query.drop m filter
      let _ ← execute model steps o .iterate
      pure (counted (.int matched))

def destroyById (model : Option String) (id options : Value) : Act Value := do
  let m ← ask fun c => c.registry.get model
  check (requireId id)
  destroyAll model (Query.byId m id) options

-- ===================================================== replace and update

/-- Drops every property of an element and writes a record in their place. -/
def replaceById (model : Option String) (id record options : Value) :
    Act Value := do
  check (requireId id)
  let o ← check (Options.ofValue options)
  observed "replace_by_id" model do
    let steps ← build model (source o) fun m => Query.replace m id record
    let _ ← execute model steps o .iterate
    pure .null

/-- Replaces the element that the record itself names. -/
def save (model : Option String) (record options : Value) : Act Value := do
  let m ← ask fun c => c.registry.get model
  let es ← check record.entries
  replaceById model (Entries.get m.idField es) record options

/-- Writes the fields of a record to every element that a filter lets through,
and counts these. -/
def updateAll (model : Option String) (filter record options : Value) :
    Act Value := do
  let o ← check (Options.ofValue options)
  observed "update_all" model do
    let steps ← build model (source o) fun m => Query.update m filter record
    let result ← execute model steps o .next
    if o.joined.isSome then pure (counted .null)
    else pure (counted (.int (← check (countOf result))))

-- ========================================================== transactions

def begin (timeout : Value) : Act Value :=
  run fun c =>
    let (id, transactions) := c.transactions.begin c.clock timeout
    (id.map .text, { c with transactions })

/-- Ends a transaction and hands out its pending work. -/
def takePending (tx : String) : Act (Option (List Step)) :=
  run fun c =>
    match c.transactions.commit tx with
    | .ok (work, transactions) => (.ok work, { c with transactions })
    | .error e => (.error e, c)

/-- Ends a transaction and submits its pending work, if there is any, once. -/
def commit (tx : String) : Act Value :=
  observed "commit" none do
    match ← takePending tx with
    | none => pure .null
    | some steps =>
      let _ ← submitOnce steps .iterate
      pure .null

def rollback (tx : String) : Act Value := do
  change fun c => { c with transactions := c.transactions.rollback tx }
  pure .null

-- ============================================================= lifecycle

def connect : Act Value := do
  change fun c => if c.openable then c.note .opened else c
  pure .null

/-- Gives up all open transactions and closes the connection. -/
def close : Act Value := do
  change fun c =>
    { c with
      transactions := c.transactions.clear
      server := { c.server with closed := true } }
  pure .null

/-- Counts the elements of a model between connecting and closing, which
happens whatever comes of the count. -/
def countInContext (model : Option String) : Act Value := do
  let _ ← connect
  run fun c =>
    match count model .null c with
    | (.ok n, c) => (.ok (.int n), (close c).2)
    | (.error e, c) => (.error e, (close c).2)

-- ================================================================ others

def register (definition : Value) : Act Value :=
  run fun c =>
    match c.registry.registerDefinition definition with
    | .ok (registry, m) => (.ok m.label, { c with registry })
    | .error e => (.error e, c)

/-- Runs a traversal that the caller has built, without a model and so without
repetitions. -/
def executeRaw (steps : List Step) (options mode : Value) : Act Value :=
  observed "execute" none (executeGiven none steps options mode)

/-- The pending work of a transaction as a value. -/
def pendingWork (tx : String) : Act Value := do
  match ← ask fun c => c.transactions.pending tx with
  | some steps => pure (.traversal steps)
  | none => pure .null

end Act

end GraphMapper

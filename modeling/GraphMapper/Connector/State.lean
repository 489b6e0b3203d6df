/-
The state of a connector: its models, its transactions, the server it talks to,
a clock, and the list of all effects it has had on the outside.

Observations of operations and counts of repetitions go to a metrics sink,
which may be absent or fail. Its failures are dropped, so it has no influence
on anything but what it has been told.

# Effects

Everything that reaches the outside is noted in a list: submissions, waits,
reconnections, and what the sink is told. So it can be said what has happened,
and in what order, also by operations that fail.
-/
import GraphMapper.Connector.Server
import GraphMapper.Execution.Options
import GraphMapper.Execution.Settings
import GraphMapper.Execution.Submission
import GraphMapper.Model.Registry
import GraphMapper.Query.Builder
import GraphMapper.Result.Normal
import GraphMapper.Transaction.Registry

namespace GraphMapper

inductive Effect where
  | submitted (mode : Mode) (steps : List Step)
  | observed (operation : String) (ok : Bool) (code : Value)
      (model : Option String)
  | counted (label : Value)
  | slept (seconds : Binary64)
  | reconnected
  | opened

/-- Where metrics go. A failing sink takes note of what it is told before it
fails. -/
inductive Sink where
  | recording | failing | absent
  deriving DecidableEq, Repr

structure Connector where
  registry : Registry
  transactions : Transactions (List Step)
  server : Server
  /-- Milliseconds since the connector was made. -/
  clock : Int
  sink : Sink
  /-- Whether the connection can be opened by the connector. -/
  openable : Bool
  /-- All effects so far, the latest last. -/
  effects : List Effect

namespace Connector

/-- A connector with its models, over a server that holds a graph. -/
def ofSettings (settings : Settings) (definitions : List Value) (graph : Graph)
    (sink : Sink) (openable : Bool) : Checked Connector := do
  let registry ← Registry.ofDefinitions definitions .empty
  let transactions ← Transactions.ofTimeout (.int settings.timeout)
  .ok ⟨registry, transactions, .ofGraph graph, 0, sink, openable, []⟩

def note (c : Connector) (e : Effect) : Connector :=
  { c with effects := c.effects ++ [e] }

/-- Ends the transactions that are due. -/
def settle (c : Connector) : Connector :=
  { c with transactions := c.transactions.expire c.clock }

/-- Moves the clock on. -/
def advance (c : Connector) (milliseconds : Int) : Connector :=
  { c with clock := c.clock + milliseconds }.settle

-- =============================================================== metrics

/-- Tells the sink, which may fail at it. -/
def tell (e : Effect) (c : Connector) : Checked Unit × Connector :=
  match c.sink with
  | .recording => (.ok (), c.note e)
  | .failing =>
      (.error (.runtime (.text "metrics sink failed") none), c.note e)
  | .absent => (.ok (), c)

/-- Tells the sink whatever comes of it. -/
def report (e : Effect) (c : Connector) : Connector := (tell e c).2

-- ================================================================== host

/-- The connector as what submissions are made to. A wait moves the clock by
whole milliseconds. -/
def host : Host Connector where
  submit steps mode c :=
    let c := c.note (.submitted mode steps)
    let (answer, server) := c.server.submit steps mode
    (answer, { c with server })
  reconnect c :=
    let c := c.note .reconnected
    (c.server.reconnect, c)
  countRetry label c := c.report (.counted label)
  sleep seconds c :=
    (c.note (.slept seconds)).advance (seconds.timesNat 1000).nearest

end Connector

/-- What a connector is asked to do: it may fail, and it leaves a new state
either way. -/
abbrev Act := ExceptT Failure (StateM Connector)

namespace Act

/-- What is decided without changing anything. -/
def ask {α : Type} (f : Connector → Checked α) : Act α := fun c => (f c, c)

def check {α : Type} (r : Checked α) : Act α := fun c => (r, c)

/-- A change that cannot fail. -/
def change (f : Connector → Connector) : Act Unit := fun c => (.ok (), f c)

/-- A change that may fail; it leaves its state either way. -/
def run {α : Type} (f : Connector → Checked α × Connector) : Act α := f

/-- The model's name as far as it says something. -/
def named (model : Option String) : Option String :=
  model.filter fun s => !s.isEmpty

/-- An operation that is observed once, when it is over. -/
def observed {α : Type} (operation : String) (model : Option String)
    (act : Act α) : Act α :=
  fun c =>
  match act c with
  | (.ok a, c) =>
      (.ok a, c.report (.observed operation true (.text "OK") (named model)))
  | (.error e, c) =>
      (.error e, c.report (.observed operation false e.recordCode
        (named model)))

end Act

end GraphMapper

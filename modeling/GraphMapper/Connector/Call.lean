/-
Calls of a connector, and what else may happen to it: the clock moves on, and
the server is told what to answer. Expiry is looked at after each of them.

With these a history of a connector is a list, and whatever is said of all
histories is proved by an induction over such lists. What is told to the server
stands among the calls: a test of this code prepares answers and failures in
just that way, and a statement that should hold whatever the server does has to
hold with any of them in between.
-/
import GraphMapper.Connector.Operations

namespace GraphMapper

/-- What may be done with a connector from outside. -/
inductive Call where
  | create (model : Option String) (record options : Value)
  | save (model : Option String) (record options : Value)
  | all (model : Option String) (filter options : Value)
  | findOne (model : Option String) (filter : Value)
  | findById (model : Option String) (id filter : Value)
  | presence (model : Option String) (id : Value)
  | count (model : Option String) (filter : Value)
  | destroyAll (model : Option String) (filter options : Value)
  | destroyById (model : Option String) (id options : Value)
  | replaceById (model : Option String) (id record options : Value)
  | updateAll (model : Option String) (filter record options : Value)
  | begin (timeout : Value)
  | commit (tx : String)
  | rollback (tx : String)
  | connect
  | close
  | context (model : Option String)
  | pending (tx : String)
  | hasModel (model : Option String)
  | register (definition : Value)
  | execute (steps : List Step) (options mode : Value)
  | engine (model : Option String) (steps : List Step) (options mode : Value)
  | submitOnce (steps : List Step) (mode : Value)
  /-- The clock moves on. -/
  | advance (milliseconds : Int)
  /-- The next submissions fail. -/
  | failNext (failures : List Failure)
  /-- The next submissions are answered without looking at the graph. -/
  | reply (values : List Value)
  /-- From now on connecting again fails, or no longer does. -/
  | failReconnect (failure : Option Failure)
  /-- The graph is looked at. -/
  | look

namespace Call

/-- The server after it has been told something. -/
def script (f : Server → Server) : Act Value := do
  Act.change fun c => { c with server := f c.server }
  pure .null

/-- What a call does. -/
def act : Call → Act Value
  | .create model record options => Act.create model record options
  | .save model record options => Act.save model record options
  | .all model filter options => Act.all model filter options
  | .findOne model filter => Act.findOne model filter
  | .findById model id filter => Act.findById model id filter
  | .presence model id => Act.presence model id
  | .count model filter => do pure (.int (← Act.count model filter))
  | .destroyAll model filter options => Act.destroyAll model filter options
  | .destroyById model id options => Act.destroyById model id options
  | .replaceById model id record options =>
      Act.replaceById model id record options
  | .updateAll model filter record options =>
      Act.updateAll model filter record options
  | .begin timeout => Act.begin timeout
  | .commit tx => Act.commit tx
  | .rollback tx => Act.rollback tx
  | .connect => Act.connect
  | .close => Act.close
  | .context model => Act.countInContext model
  | .pending tx => Act.pendingWork tx
  | .hasModel model => Act.ask fun c => .ok (.bool (c.registry.contains model))
  | .register definition => Act.register definition
  | .execute steps options mode => Act.executeRaw steps options mode
  | .engine model steps options mode =>
      Act.executeGiven model steps options mode
  | .submitOnce steps mode => do
      Act.submitOnce steps (← Act.check (Mode.parse mode))
  | .advance milliseconds => do
    Act.change fun c => c.advance milliseconds
    pure .null
  | .failNext failures =>
      script fun s => { s with failures := s.failures ++ failures }
  | .reply values => script fun s => { s with replies := s.replies ++ values }
  | .failReconnect failure =>
      script fun s => { s with reconnectFailure := failure }
  | .look => pure .null

end Call

namespace Connector

/-- One call: its outcome, and the connector after it. -/
def perform (c : Connector) (call : Call) : Checked Value × Connector :=
  let (outcome, c) := call.act c
  (outcome, c.settle)

/-- The effects of a call: those that were not there before it. -/
def effectsSince (before after : Connector) : List Effect :=
  after.effects.drop before.effects.length

/-- The connector after calls, one after the other. -/
def runCalls (c : Connector) : List Call → Connector
  | [] => c
  | call :: calls => runCalls (c.perform call).2 calls

end Connector

end GraphMapper

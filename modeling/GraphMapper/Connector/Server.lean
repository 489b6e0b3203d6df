/-
The server that a connector talks to, held in memory: a graph, and a script of
what it is to answer instead of running a traversal on the graph. Scripted
failures come first, one for each submission, then scripted results.
-/
import GraphMapper.Execution.Mode
import GraphMapper.Graph.Evaluator

namespace GraphMapper

structure Server where
  graph : Graph
  failures : List Failure
  replies : List Value
  /-- What connecting again fails with, if it does. -/
  reconnectFailure : Option Failure
  closed : Bool

namespace Server

def ofGraph (graph : Graph) : Server := ⟨graph, [], [], none, false⟩

/-- The result that a mode asks for. -/
def complete (g : Graph) (mode : Mode) (items : List Item) : Checked Value :=
  match mode with
  | .iterate => .ok .null
  | .next =>
    match items with
    | [] => .ok .null
    | item :: _ => g.result item
  | .toList => (g.results items).map .list

/-- Runs a traversal on the graph. What it has changed by the time that it
fails stays changed. -/
def evaluate (steps : List Step) (mode : Mode) (s : Server) :
    Checked Value × Server :=
  match s.graph.evaluate steps with
  | (.ok items, graph) => (complete graph mode items, { s with graph })
  | (.error e, graph) => (.error e, { s with graph })

/-- The answer to a submission. -/
def submit (steps : List Step) (mode : Mode) (s : Server) :
    Checked Value × Server :=
  match s.failures, s.replies with
  | e :: failures, _ => (.error e, { s with failures })
  | [], reply :: replies => (.ok reply, { s with replies })
  | [], [] => s.evaluate steps mode

def reconnect (s : Server) : Checked Unit :=
  match s.reconnectFailure with
  | some e => .error e
  | none => .ok ()

end Server

end GraphMapper

/-
A connection to a server elsewhere. It has at most one remote at a time, is
open while it has one, and makes a new one each time it is opened. The source
of its traversals is bound to a remote of its own, and the two are set and
given up together. A remote may fail to be made, to close, and to answer; an
`Outlook` says which of this is to happen.

Failures of the transport are passed on as faults of its own kind, so that all
failures of a submission are either answers of the server or faults.

All calls that are made of the outside are noted, with the number of the remote
that they are made of, so that it can be said which remotes have been opened
and which have been closed. A remote that is asked for has the next number,
also if it fails to be made.
-/
import GraphMapper.Failure.Report
import GraphMapper.Execution.Mode
import GraphMapper.Execution.Settings

namespace GraphMapper

/-- What is asked of remotes, which are numbered in the order in which they are
asked for. -/
inductive RemoteCall where
  | open (remote : Nat) (url source : Value) (arguments : Entries)
  | submit (remote : Nat) (steps : List Step)
  | close (remote : Nat)

/-- How remotes answer while something is asked of the connection. -/
structure Outlook where
  /-- What the making of a remote fails with, if it does. -/
  openFailure : Option Failure
  closeFailure : Option Failure
  submitFailure : Option Failure
  /-- The items of an answer, each with the number of times it is meant. -/
  reply : List (Value × Int)

structure Connection where
  settings : Settings
  /-- The remote in use. -/
  remote : Option Nat
  /-- The remote that the source of traversals is bound to, if there is a
  source. -/
  bound : Option Nat
  /-- Remotes that have been asked for. -/
  asked : Nat
  /-- Remotes that have been made. -/
  made : Nat
  /-- All calls so far, the latest last. -/
  calls : List RemoteCall

namespace Connection

def ofSettings (settings : Settings) : Connection :=
  ⟨settings, none, none, 0, 0, []⟩

def isOpen (c : Connection) : Bool := c.remote.isSome

def note (c : Connection) (call : RemoteCall) : Connection :=
  { c with calls := c.calls ++ [call] }

/-- What a remote is made with besides the URL: user and password if both are
given, and headers. -/
def arguments (s : Settings) : Entries :=
  (if s.user.isGiven && s.password.isGiven then
    [(.text "username", s.user), (.text "password", s.password)] else []) ++
    (if s.headers.isEmpty then [] else [(.text "headers", .map s.headers)])

/-- Makes a remote, unless there is one. -/
def openUp (o : Outlook) (c : Connection) : Checked Unit × Connection :=
  match c.remote with
  | some _ => (.ok (), c)
  | none =>
    match c.settings.resolveUrl with
    | .error e => (.error e, c)
    | .ok url =>
      let number := c.asked + 1
      let c := { c with asked := number }.note
        (.open number url c.settings.source (arguments c.settings))
      match o.openFailure with
      | some e => (.error e, c)
      | none =>
        (.ok (),
          { c with
            remote := some number
            bound := some number
            made := c.made + 1 })

/-- Gives up the remote and the source, and then closes the remote if there was
one, so that the connection is closed even if that fails. -/
def close (o : Outlook) (c : Connection) : Checked Unit × Connection :=
  let given := { c with remote := none, bound := none }
  match c.remote with
  | none => (.ok (), given)
  | some number =>
    let c := given.note (.close number)
    match o.closeFailure with
    | some e => (.error e, c)
    | none => (.ok (), c)

/-- Closes the remote, whatever comes of that, and makes another one. -/
def reconnect (o : Outlook) (c : Connection) : Checked Unit × Connection :=
  openUp o (close o c).2

/-- The failure of what needs an open connection. -/
def notConnected : Failure :=
  .fault ⟨.connector, .text "connection is not open",
    .text "NOT_CONNECTED", [], none⟩

/-- The remote that traversals are sent to. -/
def current (c : Connection) : Checked Nat :=
  match c.bound with
  | some number => .ok number
  | none => .error notConnected

/-- The start of traversals that are run on the remote; it has no steps. -/
def source (c : Connection) : Checked (List Step) := c.current.map fun _ => []

/-- A failure of a submission as it is passed on. -/
def passedOn (e : Failure) : Failure :=
  match e with
  | .fault _ | .server _ _ => e
  | e =>
    match e.text with
    | .ok text =>
        .fault (.ofKind .transport (if text.isGiven then text
          else .text e.name) [])
    | .error slip => slip

/-- The values of an answer: each as often as it is meant, but at least
once. -/
def values (reply : List (Value × Int)) : List Value :=
  reply.flatMap fun item => List.replicate (max 1 item.2.toNat) item.1

/-- The result that a mode asks for. -/
def complete (mode : Mode) (vs : List Value) : Value :=
  match mode with
  | .toList => .list vs
  | .next => vs.head?.getD .null
  | .iterate => .null

/-- Sends a traversal to the remote that the source is bound to. -/
def submit (o : Outlook) (steps : List Step) (mode : Value) (c : Connection) :
    Checked Value × Connection :=
  match Mode.parse mode with
  | .error e => (.error e, c)
  | .ok mode =>
    match c.current with
    | .error e => (.error e, c)
    | .ok number =>
      let c := c.note (.submit number steps)
      match o.submitFailure with
      | some e => (.error (passedOn e), c)
      | none => (.ok (complete mode (values o.reply)), c)

end Connection

/-- What may be asked of a connection. -/
inductive ConnectionCall where
  | open | close | reconnect | source
  | submit (steps : List Step) (mode : Value)

namespace Connection

/-- One call. A source is given back as a traversal over all vertices. -/
def perform (o : Outlook) (c : Connection) :
    ConnectionCall → Checked Value × Connection
  | .open => let (r, c) := c.openUp o; (r.map fun _ => .null, c)
  | .close => let (r, c) := c.close o; (r.map fun _ => .null, c)
  | .reconnect => let (r, c) := c.reconnect o; (r.map fun _ => .null, c)
  | .source =>
      (c.source.map fun steps => .traversal (steps ++ [.call .vertices []]), c)
  | .submit steps mode => c.submit o steps mode

/-- The connection after calls, each with its own outlook. -/
def runCalls (c : Connection) : List (Outlook × ConnectionCall) → Connection
  | [] => c
  | (o, call) :: rest => runCalls (c.perform o call).2 rest

end Connection

end GraphMapper

/-
Transactions of the client: holders for one piece of pending work each, which
is submitted when the transaction is committed. The server knows nothing of
them.

A transaction is open until it is committed, rolled back or expired, whichever
comes first, and stays what it became. It expires when the clock has moved on
by its timeout. The registry keeps the ids of the open ones, and a record of
every transaction there has been; `π` is the type of pending work.

# Looking at the clock

Expiry is no event of its own here: the registry is told the time (`expire`),
and then everything that is due expires at once. A transaction that has ended
otherwise is not armed any more and does not expire, and one that is not found
is not told from one that has ended.
-/
import GraphMapper.Value.Conversion
import GraphMapper.Value.Order

namespace GraphMapper

inductive TransactionState where
  | active | committed | rolledBack | expired
  deriving DecidableEq, Repr

namespace TransactionState

/-- The word for a state. -/
def word : TransactionState → String
  | .active => "open"
  | .committed => "committed"
  | .rolledBack => "rolled_back"
  | .expired => "expired"

end TransactionState

structure Transaction (π : Type) where
  id : String
  /-- The clock when it began, in milliseconds. -/
  begun : Int
  /-- Milliseconds from then until it expires; without a place on the number
  line it never does. -/
  timeout : Option Position
  pending : Option π
  state : TransactionState
  /-- Its expiry is still to come. -/
  armed : Bool

namespace Transaction

variable {π : Type}

/-- The end of a transaction disarms its expiry. -/
def finish (t : Transaction π) (state : TransactionState) : Transaction π :=
  { t with state, armed := false }

/-- The clock has moved on by the timeout. -/
def isDue (now : Int) (t : Transaction π) : Bool :=
  match t.timeout with
  | some p => !(Position.finite (.ofInt (now - t.begun))).lt p
  | none => false

end Transaction

structure Transactions (π : Type) where
  /-- The timeout of transactions that are given none. -/
  timeout : Int
  /-- Ids that have been handed out. -/
  issued : Nat
  records : List (Transaction π)
  openIds : List String

namespace Transactions

variable {π : Type}

/-- A registry; its timeout is a positive number, of which the integer part
counts. -/
def ofTimeout (timeout : Value) : Checked (Transactions π) := do
  match Value.related? .atMost timeout (.int 0) with
  | none => .error (.slip .type)
  | some true => .error (.validation "transaction timeout must be positive" [])
  | some false => .ok ⟨← timeout.toInt, 0, [], []⟩

def isOpen (r : Transactions π) (id : String) : Bool := r.openIds.contains id

def find? (r : Transactions π) (id : String) : Option (Transaction π) :=
  if r.isOpen id then r.records.find? fun t => t.id == id else none

def notFound (id : String) : Failure :=
  .ofKind .transactionNotFound "Transaction Expired or Does Not Exist"
    [(.text "transaction", .text id)]

/-- The timeout of a transaction: its own if it is given, else the registry's.
It has to be a number that has a floating-point form. It is counted in seconds,
so a fraction that is too small to have any is no time at all. -/
def timeoutOf (r : Transactions π) (own : Value) : Checked (Option Position) :=
  let timeout := if own.isGiven then own else .int r.timeout
  match timeout with
  | .int n =>
    match Binary64.ofInt? n with
    | some _ => .ok (some (.finite (.ofInt n)))
    | none => .error (.slip .overflow)
  | .float x =>
    .ok (if (x.divideBy 1000).isZero then some (.finite (.ofInt 0))
      else x.position?)
  | v =>
    match v.position? with
    | some p => .ok p
    | none => .error (.slip .type)

/-- The id of the `n`-th transaction, counted from 1. -/
def idOf (n : Nat) : String := "tx-" ++ toString n

/-- Opens a transaction. Its id is used up even when the timeout is none. -/
def begin (r : Transactions π) (now : Int) (own : Value) :
    Checked String × Transactions π :=
  let id := idOf (r.issued + 1)
  let r := { r with issued := r.issued + 1 }
  match r.timeoutOf own with
  | .error e => (.error e, r)
  | .ok timeout =>
    (.ok id, { r with
      records := r.records ++ [⟨id, now, timeout, none, .active, true⟩]
      openIds := r.openIds ++ [id] })

/-- The pending work of an open transaction. -/
def pending (r : Transactions π) (id : String) : Checked (Option π) :=
  match r.find? id with
  | some t => .ok t.pending
  | none => .error (notFound id)

/-- Changes the record of an id. -/
def update (r : Transactions π) (id : String)
    (f : Transaction π → Transaction π) :
    Transactions π :=
  { r with records := r.records.map fun t => if t.id == id then f t else t }

/-- Puts pending work in place of what was there. -/
def store (r : Transactions π) (id : String) (work : Option π) :
    Checked (Transactions π) :=
  if r.isOpen id then .ok (r.update id fun t => { t with pending := work })
  else .error (notFound id)

/-- Ends an open transaction. -/
def finish (r : Transactions π) (id : String) (state : TransactionState) :
    Transactions π :=
  { r.update id (·.finish state) with openIds := r.openIds.filter (· != id) }

/-- Ends a transaction as committed and hands out its pending work, which is to
be submitted. The transaction is over whatever becomes of the submission. -/
def commit (r : Transactions π) (id : String) :
    Checked (Option π × Transactions π) :=
  match r.find? id with
  | some t => .ok (t.pending, r.finish id .committed)
  | none => .error (notFound id)

/-- Ends a transaction as rolled back, if it is open. -/
def rollback (r : Transactions π) (id : String) : Transactions π :=
  if r.isOpen id then r.finish id .rolledBack else r

/-- Rolls back all that is open. -/
def clear (r : Transactions π) : Transactions π := r.openIds.foldl rollback r

/-- Ends a transaction as expired, if it is due. -/
def expireOne (now : Int) (r : Transactions π) (id : String) :
    Transactions π :=
  match r.find? id with
  | some t => if t.isDue now then r.finish id .expired else r
  | none => r

/-- Ends all open transactions that are due. -/
def expire (r : Transactions π) (now : Int) : Transactions π :=
  r.openIds.foldl (expireOne now) r

end Transactions

end GraphMapper

/-
Runs of a transaction registry on its own, with a clock and a submitter that
succeeds or fails as it is told to.

The connector is left out here. What a transaction is for is a matter of its
caller, and the life of a transaction, from its beginning over its expiry to
its end, is a matter of the registry and the clock alone; so it is defined, and
proved, for pending work of any kind.
-/
import GraphMapper.Transaction.Registry

namespace GraphMapper

/-- What may happen to a registry. -/
inductive TransactionEvent (π : Type) where
  | begin (timeout : Value)
  | pending (id : String)
  | store (id : String) (work : Option π)
  /-- `failure` is what the submission fails with, if it does. -/
  | commit (id : String) (failure : Option Failure)
  | rollback (id : String)
  | advance (milliseconds : Int)
  | contains (id : String)
  | clear

/-- What an event gives back. -/
inductive TransactionAnswer (π : Type) where
  | nothing
  | id (s : String)
  | work (w : Option π)
  | truth (b : Bool)

/-- A registry with its clock, in milliseconds. -/
structure TransactionRun (π : Type) where
  now : Int
  registry : Transactions π

namespace TransactionRun

variable {π : Type}

/-- A registry at the beginning of time. -/
def start (registry : Transactions π) : TransactionRun π := ⟨0, registry⟩

/-- What an event does before expiry is looked at: its answer, what was
submitted, and the run. -/
def handle (r : TransactionRun π) :
    TransactionEvent π → Checked (TransactionAnswer π) × List π ×
      TransactionRun π
  | .begin timeout =>
    let (id, registry) := r.registry.begin r.now timeout
    (id.map .id, [], { r with registry })
  | .pending id => ((r.registry.pending id).map .work, [], r)
  | .store id work =>
    match r.registry.store id work with
    | .ok registry => (.ok .nothing, [], { r with registry })
    | .error e => (.error e, [], r)
  | .commit id failure =>
    match r.registry.commit id with
    | .error e => (.error e, [], r)
    | .ok (none, registry) => (.ok .nothing, [], { r with registry })
    | .ok (some work, registry) =>
      (match failure with
        | some e => .error e
        | none => .ok .nothing, [work], { r with registry })
  | .rollback id =>
      (.ok .nothing, [], { r with registry := r.registry.rollback id })
  | .advance milliseconds =>
      (.ok .nothing, [], { r with now := r.now + milliseconds })
  | .contains id => (.ok (.truth (r.registry.isOpen id)), [], r)
  | .clear => (.ok .nothing, [], { r with registry := r.registry.clear })

/-- Expiry is looked at after every event. -/
def settle (r : TransactionRun π) : TransactionRun π :=
  { r with registry := r.registry.expire r.now }

/-- An event, and then the expiry. -/
def step (r : TransactionRun π) (event : TransactionEvent π) :
    Checked (TransactionAnswer π) × List π × TransactionRun π :=
  let (answer, submitted, r) := r.handle event
  (answer, submitted, r.settle)

/-- The run after events, one after the other. -/
def run (r : TransactionRun π) : List (TransactionEvent π) → TransactionRun π
  | [] => r
  | e :: es => run (r.step e).2.2 es

end TransactionRun

end GraphMapper

/-
Submissions that are repeated while they fail for a reason that may pass.

Such failures are known by their text: a collision of two writers, a write that
reached a reader, or a connection that is gone, which is opened again before
the next try. Everything else is passed on at once, and so is every failure
when the submission is about no model or the model's budget is used up. The
failure that is passed on is always that of the last submission.

The loop needs little of what it submits to: a `Host` says how to submit, to
connect again, to count a repetition and to wait. Each of them moves the host
from one state to the next.
-/
import GraphMapper.Failure.Report
import GraphMapper.Execution.Mode
import GraphMapper.Model.Basic

namespace GraphMapper

/-- What to do about a failed submission. -/
structure RetryDecision where
  retryable : Bool
  reconnect : Bool
  deriving DecidableEq, Repr

namespace RetryDecision

def giveUp : RetryDecision := ⟨false, false⟩

/-- Texts of failures that pass by themselves. -/
def conflictMarkers : List String :=
  ["ConcurrentModificationException", "ReadOnlyViolationException"]

/-- The text of a failure that passes once the connection is open again. -/
def connectionMarker : String := "WebSocket is not open"

/-- The decision about a text. -/
def ofText (s : String) : RetryDecision :=
  if conflictMarkers.any fun marker => Text.contains s marker then
    ⟨true, false⟩
  else if Text.contains s connectionMarker then ⟨true, true⟩
  else giveUp

/-- The decision about a failure. The library's own faults never reached the
server. A failure that has no text when it is asked for one cannot be
judged. -/
def ofFailure (e : Failure) (model : Option Model) :
    Checked RetryDecision := do
  if model.isNone || e.isOwnFault then .ok giveUp
  else
    match (← e.message?).bind Value.text? with
    | some s => .ok (ofText s)
    | none => .ok giveUp

end RetryDecision

/-- What a submission is made to, as a machine with states of type `σ`. -/
structure Host (σ : Type) where
  submit : List Step → Mode → σ → Checked Value × σ
  reconnect : σ → Checked Unit × σ
  /-- Counts a repetition for the model of a label. -/
  countRetry : Value → σ → σ
  /-- Waits a number of seconds. -/
  sleep : Binary64 → σ → σ

namespace Host

variable {σ : Type}

/-- The wait before a repetition in seconds; a wait beyond all numbers cannot
be asked for. -/
def waitSeconds (m : Model) : Checked Binary64 :=
  match Binary64.ofInt? m.retry.delay with
  | some x => .ok (x.divideBy 1000)
  | none => .error (.slip .overflow)

/-- Gets ready for a repetition after the failure `e`: connects again if asked
to, counts and waits. When the connection cannot be opened again, it is the
failure of the submission that is passed on. -/
def prepareRetry (host : Host σ) (m : Model) (e : Failure)
    (reconnect : Bool) (s : σ) :
    Checked Unit × σ :=
  match (if reconnect then host.reconnect s else (.ok (), s)) with
  | (.error _, s) => (.error e, s)
  | (.ok (), s) =>
    let s := host.countRetry m.label s
    match waitSeconds m with
    | .error slip => (.error slip, s)
    | .ok seconds => (.ok (), host.sleep seconds s)

/-- Submits, and submits again up to `left` times. -/
def submitAgain (host : Host σ) (m : Model) (steps : List Step) (mode : Mode) :
    Nat → σ → Checked Value × σ
  | left, s =>
    match host.submit steps mode s with
    | (.ok v, s) => (.ok v, s)
    | (.error e, s) =>
      match RetryDecision.ofFailure e (some m), left with
      | .error e, _ => (.error e, s)
      | .ok _, 0 => (.error e, s)
      | .ok decision, left + 1 =>
        if decision.retryable then
          match host.prepareRetry m e decision.reconnect s with
          | (.error e, s) => (.error e, s)
          | (.ok (), s) => submitAgain host m steps mode left s
        else (.error e, s)
termination_by structural left => left

/-- Submits with the budget of a model, or just once. -/
def submitWithRetry (host : Host σ) (model : Option Model) (steps : List Step)
    (mode : Mode) (s : σ) : Checked Value × σ :=
  match model with
  | some m => host.submitAgain m steps mode m.retry.attempts s
  | none => host.submit steps mode s

end Host

end GraphMapper

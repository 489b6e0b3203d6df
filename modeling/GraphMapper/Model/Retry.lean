/-
How often and after which wait a submission is repeated when it fails for a
reason that may pass.
-/
import GraphMapper.Value.Conversion

namespace GraphMapper

structure RetryPolicy where
  /-- Repetitions allowed after the first submission. -/
  attempts : Nat
  /-- The wait before each repetition, in milliseconds. -/
  delay : Nat
  deriving DecidableEq, Repr

namespace RetryPolicy

def standard : RetryPolicy := ⟨3, 100⟩

/-- An entry of the policy as an integer; what is not given has its default. -/
def setting (given : Value) (default : Nat) : Checked Int :=
  if given.isGiven then given.toInt else .ok default

/-- The policy in a mapping with `max` and `delay`. A zero counts as not
given. -/
def ofValue (raw : Value) : Checked RetryPolicy := do
  let es ← raw.entriesOrNone
  let attempts ← setting (Entries.field "max" es) standard.attempts
  let delay ← setting (Entries.field "delay" es) standard.delay
  if attempts < 0 then
    .error (.validation "retry max_attempts must be >= 0" [])
  else if delay < 0 then .error (.validation "retry delay_ms must be >= 0" [])
  else .ok ⟨attempts.toNat, delay.toNat⟩

end RetryPolicy

end GraphMapper

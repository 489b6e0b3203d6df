/-
Rounds of a submission that is repeated.

Whether a failure may pass is plain from its text (`Failure.isTransient`), and
so is whether the connection has to be opened again first
(`Failure.asksReconnect`). As long as submissions fail like that and
connections can be opened, a submission goes on in rounds: it fails, the
connection is opened if need be, the repetition is counted and waited for
(`Host.round`). A run with a budget is a number of rounds and then one more
submission, whatever the host is that answers (`submitAgain_iterate`). It ends
there because it succeeds, because it fails for good, because the budget is
used up (`submitAgain_last`), or because something goes wrong between two
submissions (`submitAgain_closed`, `submitAgain_overflow`).

# Why a function of the host

What a host answers to the next submission may depend on all that it has been
asked. A round is therefore a function of hosts, and a run is this function
iterated (`submitAgain_iterate`); the conditions are on the hosts that are met
on the way.

Chain: `Execution.Submission` for the definitions, `Value.Printing` for faults
that have no text; `Execution.Script` counts what a script of failures makes of
it.
-/
import GraphMapper.Execution.Submission
import GraphMapper.Proofs.Value.Printing
import Mathlib.Logic.Function.Iterate

namespace GraphMapper

-- ================================================================ failures

namespace Failure

/-- A submission failed with a text that has the marker in it. -/
def mentions (e : Failure) (marker : String) : Bool :=
  !e.isOwnFault &&
    match e.message? with
    | .ok (some v) => (v.text?.map fun s => Text.contains s marker).getD false
    | _ => false

/-- Two writers have collided, or a write has reached a reader. -/
def isConflict (e : Failure) : Bool :=
  e.mentions "ConcurrentModificationException" ||
    e.mentions "ReadOnlyViolationException"

/-- The failure may pass. -/
def isTransient (e : Failure) : Bool :=
  e.isConflict || e.mentions "WebSocket is not open"

/-- The failure may pass once the connection is open again. -/
def asksReconnect (e : Failure) : Bool :=
  e.mentions "WebSocket is not open" && !e.isConflict

/-- There is a text to judge the failure by, or no need of one. -/
def isReadable (e : Failure) : Bool :=
  e.isOwnFault ||
    match e.message? with
    | .ok _ => true
    | .error _ => false

/-- What is passed on of a failure: the failure itself, unless it is to be
judged and has no text to be judged by. Then it is what the attempt to get
one fails with. -/
def raised (e : Failure) : Failure :=
  if e.isOwnFault then e
  else
    match e.message? with
    | .ok _ => e
    | .error f => f

/-- The text of a fault is missing for the reasons that any text is. -/
private theorem failsOnly_faultText (f : Fault) :
    FailsOnly IsTextless f.text := by
  have hextended (base : Value) (more : String) :
      FailsOnly IsTextless (Fault.extended base more) :=
    base.failsOnly_words.bind fun _ => failsOnly_ok _
  have hcoded (base : Value) : FailsOnly IsTextless (f.coded base) := by
    unfold Fault.coded
    split
    · exact f.code.failsOnly_plain.bind fun _ => hextended _ _
    · exact failsOnly_ok _
  have hdetailed (base : Value) : FailsOnly IsTextless (f.detailed base) := by
    unfold Fault.detailed
    split
    · exact failsOnly_ok _
    · exact (Value.failsOnly_literal _).bind fun _ => hextended _ _
  refine (hcoded _).bind fun base => (hdetailed base).bind fun whole => ?_
  split
  · exact failsOnly_ok _
  · exact failsOnly_error (.inl rfl)

private theorem failsOnly_text (e : Failure) :
    FailsOnly IsTextless e.text := by
  cases e with
  | fault f => exact failsOnly_faultText f
  | runtime message status => exact message.failsOnly_plain.map _
  | server text message => exact failsOnly_ok _
  | notImplemented message => exact failsOnly_ok _
  | slip s => exact failsOnly_ok _

private theorem failsOnly_message? (e : Failure) :
    FailsOnly IsTextless e.message? := by
  have hown : FailsOnly IsTextless (message?.own e) :=
    e.failsOnly_text.bind fun _ => failsOnly_ok _
  unfold message?
  split
  · split
    · exact failsOnly_ok _
    · exact hown
  · exact hown

/-- What is passed on is the failure, or how it fails to have a text. -/
theorem raised_eq_or (e : Failure) : e.raised = e ∨ e.raised.IsTextless := by
  unfold raised
  split
  · exact .inl rfl
  · split
    · exact .inl rfl
    · next f hmessage => exact .inr (e.failsOnly_message? f hmessage)

private theorem raised_of_isReadable {e : Failure} (h : e.isReadable = true) :
    e.raised = e := by
  unfold isReadable at h
  unfold raised
  cases hown : e.isOwnFault with
  | true => rfl
  | false =>
      rw [hown, Bool.false_or] at h
      cases hmessage : e.message? with
      | ok message => rfl
      | error f =>
          rw [hmessage] at h
          cases h

end Failure

/-- A text is judged by the markers in it. -/
private theorem RetryDecision.ofText_eq (s : String) :
    ofText s
      = ⟨Text.contains s "ConcurrentModificationException" ||
            Text.contains s "ReadOnlyViolationException" ||
            Text.contains s "WebSocket is not open",
          Text.contains s "WebSocket is not open" &&
            !(Text.contains s "ConcurrentModificationException" ||
              Text.contains s "ReadOnlyViolationException")⟩ := by
  unfold ofText conflictMarkers connectionMarker
  simp only [List.any_cons, List.any_nil, Bool.or_false]
  cases Text.contains s "ConcurrentModificationException" <;>
    cases Text.contains s "ReadOnlyViolationException" <;>
      cases Text.contains s "WebSocket is not open" <;> rfl

/-- The decision about a failure of a submission for a model. -/
theorem RetryDecision.ofFailure_eq (e : Failure) (m : Model) :
    ofFailure e (some m)
      = if e.isReadable then .ok ⟨e.isTransient, e.asksReconnect⟩
        else .error e.raised := by
  unfold ofFailure Failure.isReadable Failure.raised Failure.isTransient
    Failure.asksReconnect Failure.isConflict Failure.mentions
  cases e.isOwnFault with
  | true => rfl
  | false =>
      cases hmessage : e.message? with
      | error f => rfl
      | ok message =>
          cases message with
          | none => rfl
          | some v =>
              cases htext : v.text? with
              | none => simp [bind, Except.bind, htext, giveUp]
              | some s => simp [bind, Except.bind, htext, ofText_eq]

-- ================================================================== rounds

namespace Host

variable {σ : Type} (host : Host σ) (m : Model) (steps : List Step)
  (mode : Mode)

/-- Opens the connection again if the failure asks for it. -/
def reopen (e : Failure) (s : σ) : Checked Unit × σ :=
  if e.asksReconnect then host.reconnect s else (.ok (), s)

/-- A submission that fails, and everything up to the next one. -/
def round (seconds : Binary64) (s : σ) : σ :=
  match host.submit steps mode s with
  | (.ok _, s) => s
  | (.error e, s) =>
      host.sleep seconds (host.countRetry m.label (host.reopen e s).2)

/-- The submission fails so that it is repeated, if there is budget left for
that. -/
def Repeats (s : σ) : Prop :=
  ∃ e s' s'', host.submit steps mode s = (.error e, s') ∧
    e.isTransient = true ∧ host.reopen e s' = (.ok (), s'')

variable {host m steps mode} {s s' s'' : σ} {e f : Failure}
  {d : Binary64} {left : Nat}

/-- A failure that may pass can be read. -/
private theorem isReadable_of_isTransient (h : e.isTransient = true) :
    e.isReadable = true := by
  unfold Failure.isTransient Failure.isConflict Failure.mentions at h
  unfold Failure.isReadable
  cases hmessage : e.message? with
  | ok message => exact Bool.or_true _
  | error f => simp [hmessage] at h

/-- The decision about a failure that may pass. -/
private theorem ofFailure_of_isTransient (h : e.isTransient = true)
    (m : Model) :
    RetryDecision.ofFailure e (some m) = .ok ⟨true, e.asksReconnect⟩ := by
  rw [RetryDecision.ofFailure_eq, isReadable_of_isTransient h, h]
  rfl

/-- With budget left, a failure that may pass is prepared for another
submission. -/
private theorem submitAgain_of_isTransient
    (hsubmit : host.submit steps mode s = (.error e, s'))
    (he : e.isTransient = true) : host.submitAgain m steps mode (left + 1) s
      = match host.prepareRetry m e e.asksReconnect s' with
        | (.error f, s) => (.error f, s)
        | (.ok (), s) => host.submitAgain m steps mode left s := by
  rw [submitAgain, hsubmit]
  rcases hprepared : host.prepareRetry m e e.asksReconnect s' with
    ⟨f | u, s''⟩ <;>
    simp only [ofFailure_of_isTransient he m, hprepared, if_true]

/-- It is only beyond all numbers that there is no wait. -/
theorem waitSeconds_eq_error (h : waitSeconds m = .error e) :
    e = .slip .overflow := by
  unfold waitSeconds at h
  cases hx : Binary64.ofInt? m.retry.delay with
  | some x => rw [hx] at h; cases h
  | none => rw [hx] at h; exact (Except.error.inj h).symm

private theorem submitAgain_round (hd : waitSeconds m = .ok d)
    (h : host.Repeats steps mode s) :
    host.submitAgain m steps mode (left + 1) s
      = host.submitAgain m steps mode left (host.round m steps mode d s) := by
  obtain ⟨e, s', s'', hsubmit, he, hreopen⟩ := h
  have hround : host.round m steps mode d s
      = host.sleep d (host.countRetry m.label s'') := by
    unfold round
    rw [hsubmit]
    simp only [hreopen]
  rw [submitAgain_of_isTransient hsubmit he, hround]
  unfold reopen at hreopen
  unfold prepareRetry
  simp only [hreopen, hd]

/-- A run goes on in rounds, and each takes one off the budget. -/
theorem submitAgain_iterate (hd : waitSeconds m = .ok d) (n : Nat)
    (hn : n ≤ left)
    (h : ∀ i < n,
      host.Repeats steps mode ((host.round m steps mode d)^[i] s)) :
    host.submitAgain m steps mode left s
      = host.submitAgain m steps mode (left - n)
        ((host.round m steps mode d)^[n] s) := by
  induction n with
  | zero => rfl
  | succ n ih =>
      have hleft : left - n = left - (n + 1) + 1 := by omega
      rw [ih (by omega) fun i hi => h i (by omega), hleft,
        submitAgain_round hd (h n (Nat.lt_succ_self n)),
        Function.iterate_succ_apply']

/-- A run ends with a submission that is not repeated. -/
theorem submitAgain_last
    (h : left = 0 ∨ ∀ e, (host.submit steps mode s).1 = .error e →
      e.isTransient = false) : host.submitAgain m steps mode left s
    = ((host.submit steps mode s).1.mapError Failure.raised,
        (host.submit steps mode s).2) := by
  rw [submitAgain]
  rcases hsubmit : host.submit steps mode s with ⟨e | v, s'⟩
  · simp only [RetryDecision.ofFailure_eq]
    show _ = (Except.error e.raised, s')
    cases hread : e.isReadable with
    | false => rfl
    | true =>
        rw [Failure.raised_of_isReadable hread]
        cases left with
        | zero => rfl
        | succ left =>
            have he : e.isTransient = false := by
              refine h.resolve_left (Nat.succ_ne_zero left) e ?_
              rw [hsubmit]
            simp [he]
  · rfl

/-- A connection that cannot be opened ends the run with the failure of the
submission. -/
theorem submitAgain_closed
    (hsubmit : host.submit steps mode s = (.error e, s'))
    (he : e.isTransient = true)
    (hreopen : host.reopen e s' = (.error f, s'')) :
    host.submitAgain m steps mode (left + 1) s = (.error e, s'') := by
  rw [submitAgain_of_isTransient hsubmit he]
  unfold reopen at hreopen
  unfold prepareRetry
  simp only [hreopen]

/-- A wait that is no number ends the run with an overflow, once the repetition
has been counted. -/
theorem submitAgain_overflow (hd : waitSeconds m = .error f)
    (hsubmit : host.submit steps mode s = (.error e, s'))
    (he : e.isTransient = true) (hreopen : host.reopen e s' = (.ok (), s'')) :
    host.submitAgain m steps mode (left + 1) s
      = (.error f, host.countRetry m.label s'') := by
  rw [submitAgain_of_isTransient hsubmit he]
  unfold reopen at hreopen
  unfold prepareRetry
  simp only [hreopen, hd]

end Host

end GraphMapper

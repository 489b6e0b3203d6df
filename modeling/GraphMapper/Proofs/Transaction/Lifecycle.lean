/-
The life of every transaction of a registry, along any run of events.

A transaction is open from the event that begins it to the first that ends it:
a commit, a rollback, a `clear`, or its time being up. Everything that is said
of it is said at one point of a run, after the events there have been
(`Lifecycle`): what is known of its record, what one more event does to it, and
what has been stored and submitted under its id so far.

Two invariants carry it, each kept by one event and so by every run. The
registry is consistent and nothing that is open is due (`Standing`), which
makes events without effect of those that are about what is not open, and keeps
the clock out of those that do not move it. The work of every record is the one
that was last put there, and what has been submitted under an id is the work of
its record if that is committed (`Accounts`).

# What pins down an expiry

A transaction has a deadline from the event that begins it: the time of the
clock then, and the timeout, which is its own one if that is given and else the
registry's (`Orderly.begins`). From there on only the clock matters, and
`Orderly` says at every later point of the run whether the time is up.

Main statement: `lifecycle`.

Chain: `Fate` says what one event does to one record; `Usable` derives how long
a transaction can be used.
-/
import GraphMapper.Proofs.Failure.Checked
import GraphMapper.Proofs.Transaction.Fate
import Mathlib.Algebra.Order.Field.Basic
import Mathlib.Data.List.Induction
import Mathlib.Data.Rat.Cast.Order

namespace GraphMapper

variable {π : Type}

-- ============================================================ time that is up

/-- A quotient as a rational number. -/
def Ratio.toRat (q : Ratio) : ℚ := (q.num : ℚ) / (q.den : ℚ)

/-- An integer as a ratio is the integer. -/
@[simp] theorem Ratio.toRat_ofInt (n : Int) : (Ratio.ofInt n).toRat = n := by
  simp [Ratio.toRat, Ratio.ofInt]

/-- The clock has reached the beginning of a transaction and its timeout on
top. A timeout may have no end, or no place on the number line; then it does
not come to that. -/
def Transaction.TimeUp (now : Int) (t : Transaction π) : Prop :=
  match t.timeout with
  | some (.finite q) => (t.begun : ℚ) + q.toRat ≤ (now : ℚ)
  | some .bottom => True
  | some .top => False
  | none => False

/-- With a whole number of milliseconds that is a matter of whole numbers. -/
private theorem Transaction.timeUp_iff_of_timeout {t : Transaction π} {n : Int}
    (h : t.timeout = some (.finite (.ofInt n))) (now : Int) :
    t.TimeUp now ↔ t.begun + n ≤ now := by
  unfold TimeUp
  rw [h]
  simp only [Ratio.toRat_ofInt]
  norm_cast

/-- The order of ratios is that of the rational numbers. -/
theorem Ratio.lt_iff (a b : Ratio) : a.lt b = true ↔ a.toRat < b.toRat := by
  have ha : (0 : ℚ) < (a.den : ℚ) := by exact_mod_cast a.den_pos
  have hb : (0 : ℚ) < (b.den : ℚ) := by exact_mod_cast b.den_pos
  unfold Ratio.lt Ratio.toRat
  rw [decide_eq_true_eq, div_lt_div_iff₀ ha hb]
  norm_cast

/-- A number of milliseconds that is too small to be any seconds. -/
def Value.isLost : Value → Bool
  | .float x => (x.divideBy 1000).isZero
  | _ => false

namespace Transactions

/-- What the timeout of a transaction is taken from: its own if it is given,
else that of the registry. -/
def chosen (r : Transactions π) (own : Value) : Value :=
  if own.isGiven then own else .int r.timeout

variable {r : Transactions π} {own : Value}

/-- A number that has a floating-point form can be waited for. One that is lost
is no time at all. -/
private theorem timeoutOf_of_position? {place : Option Position}
    (hplace : (r.chosen own).position? = some place)
    (hform : ∀ n, r.chosen own = .int n → (Binary64.ofInt? n).isSome = true) :
    r.timeoutOf own = .ok (if (r.chosen own).isLost
      then some (.finite (.ofInt 0)) else place) := by
  unfold timeoutOf
  unfold chosen at hplace hform ⊢
  generalize (if own.isGiven then own else .int r.timeout) = v at *
  cases v with
  | int n =>
      obtain ⟨x, hx⟩ := Option.isSome_iff_exists.mp (hform n rfl)
      rw [← Option.some.inj hplace]
      simp only [hx]
      rfl
  | float x =>
      rw [← Option.some.inj hplace]
      rfl
  | bool b =>
      rw [← Option.some.inj hplace]
      rfl
  | _ => cases hplace

/-- And nothing else can. -/
private theorem position?_of_timeoutOf {timeout : Option Position}
    (h : r.timeoutOf own = .ok timeout) :
    (r.chosen own).position?.isSome = true ∧
      ∀ n, r.chosen own = .int n → (Binary64.ofInt? n).isSome = true := by
  unfold timeoutOf at h
  unfold chosen
  generalize (if own.isGiven then own else .int r.timeout) = v at *
  cases v with
  | int n =>
      refine ⟨rfl, fun k hk => ?_⟩
      rw [← Value.int.inj hk]
      cases hform : Binary64.ofInt? n with
      | some x => rfl
      | none =>
          simp only [hform] at h
          cases h
  | float x => exact ⟨rfl, fun k hk => nomatch hk⟩
  | bool b => exact ⟨rfl, fun k hk => nomatch hk⟩
  | _ => cases h

end Transactions

/-- A transaction is due when its time is up. -/
theorem Transaction.isDue_iff (now : Int) (t : Transaction π) :
    t.isDue now = true ↔ t.TimeUp now := by
  unfold isDue TimeUp
  cases t.timeout with
  | none => simp
  | some p =>
      cases p with
      | bottom => simp [Position.lt]
      | top => simp [Position.lt]
      | finite q =>
          show (!(Ratio.ofInt (now - t.begun)).lt q) = true
              ↔ (t.begun : ℚ) + q.toRat ≤ (now : ℚ)
          rw [Bool.not_eq_true', Bool.eq_false_iff, Ne, Ratio.lt_iff,
            Ratio.toRat_ofInt, not_lt, Int.cast_sub]
          exact le_sub_iff_add_le'

namespace TransactionEvent

/-- The event is one of an id: it may change what is known of it. -/
def Concerns (id : String) : TransactionEvent π → Prop
  | .pending id' | .store id' _ | .commit id' _ | .rollback id'
  | .contains id' => id' = id
  | .begin _ => False
  | .advance _ | .clear => True

/-- The event is a commit of an id. -/
def commits (id : String) : TransactionEvent π → Bool
  | .commit id' _ => id' == id
  | _ => false

/-- Only a commit makes a transaction committed. -/
private theorem commits_of_ends {id : String} {e : TransactionEvent π}
    (h : e.ends id = some .committed) : e.commits id = true := by
  cases e with
  | commit id' failure =>
      by_contra hne
      rw [show (commit id' failure).ends id
        = none from if_neg fun heq => hne (beq_iff_eq.mpr heq)] at h
      cases h
  | rollback id' =>
      change (if id' = id then some TransactionState.rolledBack else none)
          = _ at h
      split at h <;> cases h
  | _ => cases h

end TransactionEvent

namespace TransactionRun

open Transactions Transaction

variable {r : TransactionRun π}

-- ================================================================= histories

/-- The work that was last put under an id along a run of events, of what was
taken; `work` is what was there at first. -/
def stored (id : String) (r : TransactionRun π) (work : Option π) :
    List (TransactionEvent π) → Option π
  | [] => work
  | e :: es =>
    stored id (r.step e).2.2
      (if r.registry.isOpen id then (e.stores id).getD work else work) es

/-- What commits of an id submit along a run of events. -/
def submissions (id : String) (r : TransactionRun π) :
    List (TransactionEvent π) → List π
  | [] => []
  | e :: es =>
    (if e.commits id then (r.step e).2.1 else [])
      ++ submissions id (r.step e).2.2 es

/-- To run on is to run from where the first part has come to. -/
private theorem run_append (r : TransactionRun π)
    (before later : List (TransactionEvent π)) :
    r.run (before ++ later) = (r.run before).run later := by
  induction before generalizing r with
  | nil => rfl
  | cons e before ih => exact ih (r.step e).2.2

/-- What has last been stored under an id, after one more event. -/
private theorem stored_concat (id : String) (r : TransactionRun π)
    (work : Option π)
    (before : List (TransactionEvent π)) (e : TransactionEvent π) :
    stored id r work (before ++ [e])
      = (if (r.run before).registry.isOpen id then
        (e.stores id).getD (stored id r work before)
          else stored id r work before) := by
  induction before generalizing r work with
  | nil => rfl
  | cons e' before ih => exact ih (r.step e').2.2 _

/-- What has been submitted under an id, after one more event. -/
private theorem submissions_concat (id : String) (r : TransactionRun π)
    (before : List (TransactionEvent π)) (e : TransactionEvent π) :
    submissions id r (before ++ [e])
      = submissions id r before
        ++ (if e.commits id then ((r.run before).step e).2.1 else []) := by
  induction before generalizing r with
  | nil => exact List.append_nil _
  | cons e' before ih =>
      show _ ++ submissions id (r.step e').2.2 (before ++ [e]) = (_ ++ _) ++ _
      rw [ih, List.append_assoc]
      rfl

-- ================================================================== standing

/-- The registry is consistent, and nothing that is open is due. -/
structure Standing (r : TransactionRun π) : Prop where
  consistent : r.registry.Consistent
  prompt : ∀ t ∈ r.registry.records, t.state = .active → t.isDue r.now = false

/-- A registry starts without transactions. -/
private theorem ofTimeout_eq_ok {timeout : Value} {registry : Transactions π}
    (h : Transactions.ofTimeout timeout = .ok registry) :
    ∃ n, timeout.toInt = .ok n ∧ registry = ⟨n, 0, [], []⟩ := by
  unfold Transactions.ofTimeout at h
  split at h
  · cases h
  · cases h
  · obtain ⟨n, hint, hn⟩ := bind_eq_ok h
    exact ⟨n, hint, (Except.ok.inj hn).symm⟩

/-- Nothing is open at the start, so nothing is due. -/
theorem standing_start (timeout : Int) :
    Standing (π := π) (.start ⟨timeout, 0, [], []⟩) :=
  ⟨consistent_empty timeout, fun _ ht => nomatch ht⟩

/-- One event keeps it: expiry has been looked at last. -/
theorem Standing.step (h : Standing r) (e : TransactionEvent π) :
    Standing (r.step e).2.2 := by
  refine ⟨consistent_step h.consistent e, ?_⟩
  rw [step_eq h.consistent]
  intro t ht hactive
  obtain ⟨t', -, rfl⟩ := List.mem_map.mp ht
  exact not_isDue_settle hactive

/-- What every event keeps, every run keeps. -/
theorem Standing.run (h : Standing r) (events : List (TransactionEvent π)) :
    Standing (r.run events) := by
  induction events generalizing r with
  | nil => exact h
  | cons e events ih => exact ih (h.step e)

/-- The timeout of a registry is that of its construction. -/
private theorem timeout_step (h : Standing r) (e : TransactionEvent π) :
    (r.step e).2.2.registry.timeout = r.registry.timeout := by
  rw [step_eq h.consistent]
  show (r.opened e).timeout = _
  unfold opened Transactions.begin
  split
  · simp only
    split <;> rfl
  · rfl

/-- No event changes the timeout of the registry. -/
theorem timeout_run (h : Standing r) (events : List (TransactionEvent π)) :
    (r.run events).registry.timeout = r.registry.timeout := by
  induction events generalizing r with
  | nil => rfl
  | cons e events ih => exact (ih (h.step e)).trans (timeout_step h e)

-- ======================================================== what one event does

/-- What has ended meets no event any more. -/
theorem Standing.record?_run_of_ended (h : Standing r) {id : String}
    {t : Transaction π} (hfind : r.registry.record? id = some t)
    (hended : t.state ≠ .active) (later : List (TransactionEvent π)) :
    (r.run later).registry.record? id = some t := by
  induction later generalizing r with
  | nil => exact hfind
  | cons e later ih =>
      refine ih (h.step e) ?_
      rw [record?_step h.consistent hfind, meet_of_ended e hended,
        settle_of_ended _ hended]

/-- A record that an event leaves alone stays as it is, unless the clock is
moved. -/
private theorem Standing.record?_step_of_idle (h : Standing r) {id : String}
    {t : Transaction π} (hfind : r.registry.record? id = some t)
    {e : TransactionEvent π} (hends : e.ends id = none)
    (hstores : e.stores id = none) (hclock : e.elapsed = 0) :
    (r.step e).2.2.registry.record? id = some t := by
  obtain ⟨ht, rfl⟩ := mem_of_record? hfind
  rw [record?_step h.consistent hfind, meet_of_idle hends hstores, hclock,
    Int.add_zero, settle_of_not_isDue (h.prompt t ht)]

/-- An event that is about what is not open, or only asks, changes nothing. -/
private theorem Standing.step_of_idle (h : Standing r) {e : TransactionEvent π}
    (hopened : r.opened e = r.registry)
    (hmeet : ∀ t ∈ r.registry.records, meet e t = t) (hclock : e.elapsed = 0) :
    (r.step e).2.2 = r := by
  have hidle : r.registry.each (Transaction.settle r.now ∘ meet e)
      = r.registry := by
    refine each_eq_self h.consistent fun t ht => ?_
    rw [Function.comp_apply, hmeet t ht, settle_of_not_isDue (h.prompt t ht)]
  rw [step_eq h.consistent, hopened, hclock, Int.add_zero, hidle]

/-- An event that is about an id which is not open leaves the registry, for
there is nothing to change and nothing due. -/
private theorem Standing.step_of_closed (h : Standing r)
    {e : TransactionEvent π}
    {id : String} (hclosed : r.registry.isOpen id = false)
    (hopened : r.opened e = r.registry)
    (hother : ∀ id', id' ≠ id → e.ends id' = none ∧ e.stores id' = none)
    (hclock : e.elapsed = 0) : (r.step e).2.2 = r :=
  h.step_of_idle hopened
    (fun _ ht => meet_of_closed h.consistent hclosed hother ht) hclock

/-- What is not open is refused, and nothing changes; to roll it back is no
failure. -/
theorem Standing.closed (h : Standing r) {id : String}
    (hclosed : r.registry.isOpen id = false) :
    (∀ failure, r.step (.commit id failure) = (.error (notFound id), [], r))
      ∧ (∀ work, r.step (.store id work) = (.error (notFound id), [], r))
      ∧ r.step (.pending id) = (.error (notFound id), [], r)
      ∧ r.step (.rollback id) = (.ok .nothing, [], r) := by
  have hfind : r.registry.find? id = none := find?_of_closed hclosed
  -- each of the four finds no open record and leaves the run as it is
  refine ⟨fun failure => ?_, fun work => ?_, ?_, ?_⟩
  · have hsame : (r.step (.commit id failure)).2.2 = r :=
      h.step_of_closed hclosed rfl
        (fun id' hne => ⟨if_neg (Ne.symm hne), rfl⟩) rfl
    have hanswer : r.handle (.commit id failure)
        = (.error (notFound id), [], r) := by
      simp only [handle, Transactions.commit, hfind]
    rw [TransactionRun.step, hanswer] at hsame ⊢
    exact congrArg (fun r' => (Except.error (notFound id), [], r')) hsame
  · have hsame : (r.step (.store id work)).2.2 = r :=
      h.step_of_closed hclosed rfl
        (fun id' hne => ⟨rfl, if_neg (Ne.symm hne)⟩) rfl
    have hanswer : r.handle (.store id work)
        = (.error (notFound id), [], r) := by
      simp only [handle, Transactions.store, hclosed,
        Bool.false_eq_true, if_false]
    rw [TransactionRun.step, hanswer] at hsame ⊢
    exact congrArg (fun r' => (Except.error (notFound id), [], r')) hsame
  · have hsame : (r.step (.pending id)).2.2 = r :=
      h.step_of_closed hclosed rfl (fun _ _ => ⟨rfl, rfl⟩) rfl
    have hanswer : r.handle (.pending id) = (.error (notFound id), [], r) := by
      simp only [handle, Transactions.pending, hfind]
      rfl
    rw [TransactionRun.step, hanswer] at hsame ⊢
    exact congrArg (fun r' => (Except.error (notFound id), [], r')) hsame
  · have hsame : (r.step (.rollback id)).2.2 = r :=
      h.step_of_closed hclosed rfl
        (fun id' hne => ⟨if_neg (Ne.symm hne), rfl⟩) rfl
    exact congrArg (fun r' => (Except.ok TransactionAnswer.nothing, [], r'))
      hsame

/-- What an event makes of an open transaction: it ends it, or it expires if
its time is up, or it stays open. Its work is what is put there, if any is. -/
theorem Standing.step_of_open (h : Standing r) {id : String}
    {t : Transaction π} (hfind : r.registry.record? id = some t)
    (hactive : t.state = .active) (e : TransactionEvent π) :
    ∃ t', (r.step e).2.2.registry.record? id = some t'
      ∧ t'.begun = t.begun ∧ t'.timeout = t.timeout ∧
      t'.pending = (e.stores id).getD t.pending ∧
      (∀ state, e.ends id = some state → t'.state = state) ∧
      (e.ends id = none → (t'.state = .expired ↔ t.TimeUp (r.now + e.elapsed))
          ∧ (t'.state = .active ↔ ¬t.TimeUp (r.now + e.elapsed))) := by
  obtain ⟨-, rfl⟩ := mem_of_record? hfind
  refine ⟨_, record?_step h.consistent hfind e, ?_⟩
  -- an event that ends the record decides its state; else only the clock can
  cases hends : e.ends t.id with
  | some state =>
      have hmeet : meet e t = t.finish state := by
        unfold meet
        rw [if_pos hactive, hends]
      have hstores : e.stores t.id = none := by
        cases e <;> first | rfl | cases hends
      have hne : (t.finish state).state ≠ .active := ends_ne_active hends
      rw [hmeet, settle_of_ended _ hne, hstores]
      refine ⟨rfl, rfl, rfl, fun state' heq => Option.some.inj heq,
        fun hnone => nomatch hnone⟩
  | none =>
      have hmeet : meet e t
          = { t with pending := (e.stores t.id).getD t.pending } := by
        unfold meet
        rw [if_pos hactive, hends]
        cases e.stores t.id with
        | none => rfl
        | some work => rfl
      rw [hmeet, ← t.isDue_iff]
      unfold Transaction.settle endIf
      cases hdue : t.isDue (r.now + e.elapsed) with
      | true =>
          rw [if_pos ⟨hactive, hdue⟩]
          refine ⟨rfl, rfl, rfl, fun _ heq => (nomatch heq), fun _ => ?_⟩
          simp [Transaction.finish]
      | false =>
          rw [if_neg fun hboth => Bool.false_ne_true (hdue.symm.trans hboth.2)]
          refine ⟨rfl, rfl, rfl, fun _ heq => (nomatch heq), fun _ => ?_⟩
          simp [hactive]

/-- A commit of an open transaction submits its work, if it has any, and fails
as that does. The transaction is committed and over whatever becomes of it. -/
theorem Standing.step_commit (h : Standing r) {id : String} {t : Transaction π}
    (hfind : r.registry.record? id = some t) (hactive : t.state = .active)
    (failure : Option Failure) :
    (r.step (.commit id failure)).1
        = (match t.pending, failure with
            | some _, some e => .error e
            | _, _ => .ok .nothing)
      ∧ (r.step (.commit id failure)).2.1 = t.pending.toList
      ∧ (r.step (.commit id failure)).2.2.registry.record? id
          = some (t.finish .committed)
      ∧ (r.step (.commit id failure)).2.2.registry.isOpen id = false := by
  have hopen : r.registry.isOpen id = true :=
    (h.consistent.isOpen_iff_active hfind).mpr hactive
  -- a committed record is settled as it is: the clock no longer matters
  have hrecord : (r.step (.commit id failure)).2.2.registry.record? id
      = some (t.finish .committed) := by
    obtain ⟨-, rfl⟩ := mem_of_record? hfind
    have hmeet : meet (.commit t.id failure) t = t.finish .committed := by
      rw [meet_commit]
      exact if_pos ⟨hactive, beq_self_eq_true t.id⟩
    have hne : (t.finish .committed).state ≠ .active := by
      show TransactionState.committed ≠ .active
      decide
    rw [record?_step h.consistent hfind, hmeet, settle_of_ended _ hne]
  have hclosed : (r.step (.commit id failure)).2.2.registry.isOpen id
      = false := by
    rw [Bool.eq_false_iff]
    intro hstill
    exact nomatch
      ((consistent_step h.consistent _).isOpen_iff_active hrecord).mp hstill
  refine ⟨?_, ?_, hrecord, hclosed⟩
  · show (r.handle (.commit id failure)).1 = _
    simp only [handle, Transactions.commit, find?_of_open hopen, hfind]
    cases t.pending with
    | none => rfl
    | some work => cases failure <;> rfl
  · show (r.handle (.commit id failure)).2.1 = _
    simp only [handle, Transactions.commit, find?_of_open hopen, hfind]
    cases t.pending with
    | none => rfl
    | some work => rfl

/-- Nothing but the commit of an open transaction submits. -/
theorem Standing.submitted (h : Standing r) {e : TransactionEvent π}
    (hsome : (r.step e).2.1 ≠ []) :
    ∃ id failure, e = .commit id failure ∧ r.registry.isOpen id = true := by
  cases e with
  | commit id failure =>
      refine ⟨id, failure, rfl, ?_⟩
      by_cases hopen : r.registry.isOpen id = true
      · exact hopen
      · rw [((h.closed (Bool.not_eq_true _ ▸ hopen)).1 failure)] at hsome
        exact absurd rfl hsome
  | store id work =>
      refine absurd ?_ hsome
      show (r.handle (.store id work)).2.1 = []
      simp only [handle]
      cases r.registry.store id work <;> rfl
  | begin own => exact absurd rfl hsome
  | pending id => exact absurd rfl hsome
  | rollback id => exact absurd rfl hsome
  | advance milliseconds => exact absurd rfl hsome
  | contains id => exact absurd rfl hsome
  | clear => exact absurd rfl hsome

/-- An event that is not about an id leaves its record, and whether it is
open. -/
private theorem Standing.step_of_not_concerns (h : Standing r) {id : String}
    {t : Transaction π} (hfind : r.registry.record? id = some t)
    {e : TransactionEvent π} (hother : ¬e.Concerns id) :
    (r.step e).2.2.registry.record? id = some t
      ∧ (r.step e).2.2.registry.isOpen id = r.registry.isOpen id := by
  have hrecord : (r.step e).2.2.registry.record? id = some t := by
    cases e with
    | store id' work =>
        exact h.record?_step_of_idle hfind rfl (if_neg hother) rfl
    | commit id' failure =>
        exact h.record?_step_of_idle hfind (if_neg hother) rfl rfl
    | rollback id' =>
        exact h.record?_step_of_idle hfind (if_neg hother) rfl rfl
    | begin own => exact h.record?_step_of_idle hfind rfl rfl rfl
    | pending id' => exact h.record?_step_of_idle hfind rfl rfl rfl
    | contains id' => exact h.record?_step_of_idle hfind rfl rfl rfl
    | advance milliseconds => exact absurd trivial hother
    | clear => exact absurd trivial hother
  refine ⟨hrecord, Bool.eq_iff_iff.mpr ?_⟩
  rw [h.consistent.isOpen_iff_active hfind,
    (consistent_step h.consistent e).isOpen_iff_active hrecord]

/-- A transaction begins when its timeout can be waited for. -/
theorem begin_answer (r : TransactionRun π) (own : Value) :
    (r.step (.begin own)).1 = (r.registry.timeoutOf own).map fun _ =>
      .id (idOf (r.registry.issued + 1)) := by
  have hissued :
      ({ r.registry with issued := r.registry.issued + 1 } :
        Transactions π).timeoutOf own = r.registry.timeoutOf own := rfl
  show (r.registry.begin r.now own).1.map TransactionAnswer.id = _
  unfold Transactions.begin
  simp only [hissued]
  cases r.registry.timeoutOf own <;> rfl

/-- That is, when what it is taken from is a number with a floating-point
form. -/
private theorem begins_iff (r : TransactionRun π) (own : Value) :
    (∃ id, (r.step (.begin own)).1 = .ok (.id id)) ↔
      (r.registry.chosen own).position?.isSome = true ∧
        ∀ n, r.registry.chosen own = .int n →
          (Binary64.ofInt? n).isSome = true := by
  rw [begin_answer]
  constructor
  · rintro ⟨id, hid⟩
    cases htimeout : r.registry.timeoutOf own with
    | error e =>
        rw [htimeout] at hid
        cases hid
    | ok timeout => exact Transactions.position?_of_timeoutOf htimeout
  · rintro ⟨hnumber, hform⟩
    obtain ⟨place, hplace⟩ := Option.isSome_iff_exists.mp hnumber
    rw [Transactions.timeoutOf_of_position? hplace hform]
    exact ⟨_, rfl⟩

/-- A transaction that begins has a new id, begins now and has the timeout that
it is given. It is open, unless its time is up at once. -/
theorem Standing.step_begin (h : Standing r) {own : Value} {id : String}
    (hok : (r.step (.begin own)).1 = .ok (.id id)) :
    r.registry.record? id = none
      ∧ ∃ t, (r.step (.begin own)).2.2.registry.record? id = some t
        ∧ t.begun = r.now ∧ r.registry.timeoutOf own = .ok t.timeout ∧
        t.pending = none ∧ (t.state = .active ↔ ¬t.TimeUp r.now) ∧
        (t.state = .expired ↔ t.TimeUp r.now) := by
  have hbegun : (r.registry.begin r.now own).1 = .ok id := by
    change (r.registry.begin r.now own).1.map TransactionAnswer.id = _ at hok
    cases hbegin : (r.registry.begin r.now own).1 with
    | error e =>
        rw [hbegin] at hok
        cases hok
    | ok id' =>
        rw [hbegin] at hok
        exact congrArg Except.ok (TransactionAnswer.id.inj (Except.ok.inj hok))
  obtain ⟨hnew, timeout, htimeout, hrecord⟩ :=
    h.consistent.record?_begin hbegun
  refine ⟨hnew, Transaction.settle r.now ⟨id, r.now, timeout, none, .active,
    true⟩, ?_, ?_⟩
  · rw [step_eq h.consistent]
    show ((r.registry.begin r.now own).2.each _).record? id = _
    rw [record?_each _ (lawful_step _ _), hrecord]
    show some (Transaction.settle (r.now + 0) (meet (.begin own) _)) = _
    rw [meet_of_idle rfl rfl, Int.add_zero]
  · have hdue := Transaction.isDue_iff r.now
      (⟨id, r.now, timeout, none, .active, true⟩ : Transaction π)
    -- a timeout that is up at once expires the new record in the same step
    unfold Transaction.settle endIf
    split
    · next hboth =>
      have hup := hdue.mp hboth.2
      exact ⟨rfl, htimeout, rfl,
        ⟨fun hstate => (nomatch hstate), fun hnot => absurd hup hnot⟩,
        ⟨fun _ => hup, fun _ => rfl⟩⟩
    · next hnot =>
      have hup := fun h' => hnot ⟨rfl, hdue.mpr h'⟩
      exact ⟨rfl, htimeout, rfl, ⟨fun _ => hup, fun _ => rfl⟩,
        ⟨fun hstate => (nomatch hstate), fun h' => absurd h' hup⟩⟩

-- ============================================================== what was done

/-- The work of a record is the one that was last put under its id, and what
was submitted under the id is the work of its record if that is committed. -/
structure Accounts (start r : TransactionRun π)
    (before : List (TransactionEvent π)) : Prop where
  stored : ∀ id, (r.registry.record? id).bind (·.pending)
      = stored id start none before
  submitted : ∀ id, submissions id start before
    = match r.registry.record? id with
      | some t => if t.state = .committed then t.pending.toList else []
      | none => []

/-- At the start there is no record to account for. -/
private theorem accounts_start (timeout : Int) :
    Accounts (π := π) (.start ⟨timeout, 0, [], []⟩)
      (.start ⟨timeout, 0, [], []⟩) [] :=
  ⟨fun _ => rfl, fun _ => rfl⟩

/-- The record of an id that has none comes from a transaction that begins, and
holds no work. -/
private theorem Standing.record?_step_of_none (h : Standing r) {id : String}
    (hnone : r.registry.record? id = none) (e : TransactionEvent π) :
    ∀ t, (r.step e).2.2.registry.record? id = some t →
      t.pending = none ∧ t.state ≠ .committed := by
  intro t ht
  rw [step_eq h.consistent] at ht
  change ((r.opened e).each _).record? id = some t at ht
  rw [record?_each _ (lawful_step _ e)] at ht
  obtain ⟨t', hopened, rfl⟩ := Option.map_eq_some_iff.mp ht
  cases e with
  | begin own =>
      obtain ⟨hpending, hactive⟩ := record?_begin_of_none hnone hopened
      rw [Function.comp_apply, meet_of_idle rfl rfl]
      unfold Transaction.settle endIf
      split
      · exact ⟨hpending, fun hstate => nomatch hstate⟩
      · exact ⟨hpending, fun hstate => nomatch hactive.symm.trans hstate⟩
  | pending id' => exact nomatch hnone.symm.trans hopened
  | store id' work => exact nomatch hnone.symm.trans hopened
  | commit id' failure => exact nomatch hnone.symm.trans hopened
  | rollback id' => exact nomatch hnone.symm.trans hopened
  | advance milliseconds => exact nomatch hnone.symm.trans hopened
  | contains id' => exact nomatch hnone.symm.trans hopened
  | clear => exact nomatch hnone.symm.trans hopened

/-- A transaction that is open comes to be committed by the commit of its id
alone, and the commit submits its work. -/
private theorem Standing.submitted_step (h : Standing r) {id : String}
    {t t' : Transaction π} (hfind : r.registry.record? id = some t)
    (hactive : t.state = .active) (e : TransactionEvent π)
    (hnext : (r.step e).2.2.registry.record? id = some t') :
    (if e.commits id then (r.step e).2.1 else [])
      = if t'.state = .committed then t'.pending.toList else [] := by
  by_cases hcommit : e.commits id = true
  · obtain ⟨failure, rfl⟩ : ∃ failure, e = .commit id failure := by
      cases e with
      | commit id' failure => exact ⟨failure, by rw [beq_iff_eq.mp hcommit]⟩
      | _ => cases hcommit
    obtain ⟨-, hwork, hrecord, -⟩ := h.step_commit hfind hactive failure
    rw [hnext] at hrecord
    obtain rfl := Option.some.inj hrecord
    rw [if_pos hcommit, hwork]
    exact (if_pos rfl).symm
  · obtain ⟨t'', hnext', -, -, -, hends, htime⟩ :=
      h.step_of_open hfind hactive e
    rw [hnext] at hnext'
    obtain rfl := Option.some.inj hnext'
    have hnot : t'.state ≠ .committed := by
      intro hcommitted
      cases hend : e.ends id with
      | some state =>
          rw [← hends state hend, hcommitted] at hend
          exact hcommit (TransactionEvent.commits_of_ends hend)
      | none =>
          obtain ⟨hexpired, hstays⟩ := htime hend
          by_cases hup : t.TimeUp (r.now + e.elapsed)
          · exact nomatch hcommitted.symm.trans (hexpired.mpr hup)
          · exact nomatch hcommitted.symm.trans (hstays.mpr hup)
    rw [if_neg hcommit, if_neg hnot]

/-- A commit of an id that is not open submits nothing. -/
private theorem Standing.submitted_of_closed (h : Standing r) {id : String}
    (hclosed : r.registry.isOpen id = false) (e : TransactionEvent π) :
    (if e.commits id then (r.step e).2.1 else []) = [] := by
  split
  · next hcommit =>
    by_contra hsome
    obtain ⟨id', failure, rfl, hopen⟩ := h.submitted hsome
    rw [beq_iff_eq.mp hcommit, hclosed] at hopen
    cases hopen
  · rfl

/-- One event keeps the accounts. -/
theorem Accounts.step {start : TransactionRun π}
    {before : List (TransactionEvent π)}
    (h : Accounts start (start.run before) before)
    (hr : Standing (start.run before)) (e : TransactionEvent π) :
    Accounts start ((start.run before).step e).2.2 (before ++ [e]) := by
  -- what is stored, then what was submitted: unknown, open and ended records
  -- in turn
  refine ⟨fun id => ?_, fun id => ?_⟩
  · have hold := h.stored id
    rw [stored_concat, ← hold]
    cases hfind : (start.run before).registry.record? id with
    | none =>
        have hclosed := hr.consistent.isOpen_of_none hfind
        rw [hclosed, if_neg (by decide)]
        cases hnext : ((start.run before).step e).2.2.registry.record? id with
        | none => rfl
        | some t' => exact (hr.record?_step_of_none hfind e t' hnext).1
    | some t =>
        by_cases hactive : t.state = .active
        · obtain ⟨t', hnext, -, -, hpending, -⟩ :=
            hr.step_of_open hfind hactive e
          rw [hnext, if_pos
            ((hr.consistent.isOpen_iff_active hfind).mpr hactive)]
          exact hpending
        · have hclosed := mt (hr.consistent.isOpen_iff_active hfind).mp hactive
          rw [if_neg hclosed,
            show ((start.run before).step e).2.2.registry.record? id
              = some t from hr.record?_run_of_ended hfind hactive [e]]
  · rw [submissions_concat, h.submitted id]
    cases hfind : (start.run before).registry.record? id with
    | none =>
        have hclosed := hr.consistent.isOpen_of_none hfind
        rw [hr.submitted_of_closed hclosed]
        cases hnext : ((start.run before).step e).2.2.registry.record? id with
        | none => rfl
        | some t' =>
            exact (if_neg (hr.record?_step_of_none hfind e t' hnext).2).symm
    | some t =>
        by_cases hactive : t.state = .active
        · obtain ⟨t', hnext, -⟩ := hr.step_of_open hfind hactive e
          have hnot : t.state ≠ .committed :=
            fun hstate => nomatch hactive.symm.trans hstate
          rw [hnext, hr.submitted_step hfind hactive e hnext]
          show (if t.state = .committed then t.pending.toList else []) ++ _ = _
          rw [if_neg hnot, List.nil_append]
        · have hclosed := mt (hr.consistent.isOpen_iff_active hfind).mp hactive
          rw [hr.submitted_of_closed (Bool.eq_false_iff.mpr hclosed),
            show ((start.run before).step e).2.2.registry.record? id
              = some t from
              hr.record?_run_of_ended hfind hactive [e]]
          exact List.append_nil _

/-- What every event keeps, every run keeps. -/
theorem Accounts.run {start : TransactionRun π} (h : Accounts start start [])
    (hr : Standing start) (events : List (TransactionEvent π)) :
    Accounts start (start.run events) events := by
  induction events using List.reverseRecOn with
  | nil => exact h
  | append_singleton before e ih =>
      have hstep := ih.step (hr.run before) e
      rw [run_append]
      exact hstep

-- ============================================================= the whole life

/-- What is known of a registry at a point, and what one more event does to it
there. -/
structure Orderly (r : TransactionRun π) : Prop where
  /-- No two records have one id. -/
  distinct : (r.registry.records.map (·.id)).Nodup
  /-- What is open is what has an active record. -/
  active : ∀ id, r.registry.isOpen id = true
    ↔ ∃ t, r.registry.record? id = some t ∧ t.state = .active
  /-- What is open is what has an armed record. -/
  armed : ∀ id, r.registry.isOpen id = true
    ↔ ∃ t, r.registry.record? id = some t ∧ t.armed = true
  /-- Nothing is open whose time is up. -/
  prompt : ∀ id t, r.registry.record? id = some t → t.state = .active →
    ¬t.TimeUp r.now
  /-- A transaction begins if its own timeout, or the registry's if that is
  not given, is a number with a floating-point form. -/
  opens : ∀ own, (∃ id, (r.step (.begin own)).1 = .ok (.id id)) ↔
    (r.registry.chosen own).position?.isSome = true ∧
      ∀ n, r.registry.chosen own = .int n →
        (Binary64.ofInt? n).isSome = true
  /-- A transaction that begins has a new id, begins now and without work. Its
  timeout is that number, or none at all if that is too small to be any
  seconds. It is open unless its time is up at once. -/
  begins : ∀ own id, (r.step (.begin own)).1 = .ok (.id id) →
    r.registry.record? id = none
      ∧ ∃ t place, (r.step (.begin own)).2.2.registry.record? id = some t
        ∧ t.begun = r.now ∧ (r.registry.chosen own).position? = some place
        ∧ t.timeout = (if (r.registry.chosen own).isLost
            then some (.finite (.ofInt 0)) else place)
        ∧ t.pending = none
        ∧ (t.state = .active ↔ ¬t.TimeUp r.now)
        ∧ (t.state = .expired ↔ t.TimeUp r.now)
  /-- An event that ends an open transaction settles what it becomes. Without
  one it expires if the clock comes to its beginning and its timeout, and stays
  open if not. -/
  becomes : ∀ e id t, r.registry.record? id = some t → t.state = .active →
    ∃ t', (r.step e).2.2.registry.record? id = some t'
      ∧ t'.begun = t.begun ∧ t'.timeout = t.timeout ∧
      t'.pending = (e.stores id).getD t.pending ∧
      (∀ state, e.ends id = some state → t'.state = state) ∧
      (e.ends id = none → (t'.state = .expired ↔ t.TimeUp (r.now + e.elapsed))
          ∧ (t'.state = .active ↔ ¬t.TimeUp (r.now + e.elapsed)))
  /-- What has ended is the same after any further events. -/
  stays : ∀ id t, r.registry.record? id = some t → t.state ≠ .active →
    ∀ later, (r.run later).registry.record? id = some t
  /-- A commit of an open transaction submits its work, if it has any, fails as
  that does, and leaves the transaction committed and over, whether it fails or
  not. -/
  commits : ∀ id t failure, r.registry.record? id = some t →
    t.state = .active → (r.step (.commit id failure)).1
        = (match t.pending, failure with
            | some _, some e => .error e
            | _, _ => .ok .nothing)
      ∧ (r.step (.commit id failure)).2.1 = t.pending.toList
      ∧ (r.step (.commit id failure)).2.2.registry.record? id
          = some (t.finish .committed)
      ∧ (r.step (.commit id failure)).2.2.registry.isOpen id = false
  /-- Nothing else submits. -/
  submits : ∀ e, (r.step e).2.1 ≠ [] →
    ∃ id failure, e = .commit id failure ∧ r.registry.isOpen id = true
  /-- What is not open is refused, and nothing changes; to roll it back is no
  failure. -/
  closed : ∀ id, r.registry.isOpen id = false →
    (∀ failure, r.step (.commit id failure) = (.error (notFound id), [], r))
      ∧ (∀ work, r.step (.store id work) = (.error (notFound id), [], r))
      ∧ r.step (.pending id) = (.error (notFound id), [], r)
      ∧ r.step (.rollback id) = (.ok .nothing, [], r)
  /-- An event of one id leaves the records of all others, and whether they are
  open. -/
  apart : ∀ e id t, r.registry.record? id = some t → ¬e.Concerns id →
    (r.step e).2.2.registry.record? id = some t
      ∧ (r.step e).2.2.registry.isOpen id = r.registry.isOpen id

/-- In a registry where nothing is due, what events do to the open transactions
is as it should be. -/
private theorem Standing.orderly (h : Standing r) : Orderly r where
  distinct := h.consistent.distinct
  active := fun _ => h.consistent.isOpen_iff
  armed := by
    intro id
    rw [h.consistent.isOpen_iff]
    refine exists_congr fun t => and_congr_right fun hfind => ?_
    rw [h.consistent.armed t (mem_of_record? hfind).1, decide_eq_true_eq]
  prompt := by
    intro id t hfind hactive hup
    have hdue := h.prompt t (mem_of_record? hfind).1 hactive
    rw [(t.isDue_iff r.now).mpr hup] at hdue
    cases hdue
  opens := fun own => r.begins_iff own
  begins := by
    intro own id hok
    obtain ⟨hnew, t, hfind, hbegun, htimeout, hrest⟩ := h.step_begin hok
    obtain ⟨hnumber, hform⟩ := Transactions.position?_of_timeoutOf htimeout
    obtain ⟨place, hplace⟩ := Option.isSome_iff_exists.mp hnumber
    rw [Transactions.timeoutOf_of_position? hplace hform] at htimeout
    exact ⟨hnew, t, place, hfind, hbegun, hplace,
      (Except.ok.inj htimeout).symm, hrest⟩
  becomes := fun e _ _ hfind hactive => h.step_of_open hfind hactive e
  stays := fun _ _ hfind hended => h.record?_run_of_ended hfind hended
  commits := fun _ _ failure hfind hactive =>
    h.step_commit hfind hactive failure
  submits := fun _ hsome => h.submitted hsome
  closed := fun _ hclosed => h.closed hclosed
  apart := fun _ _ _ hfind hother => h.step_of_not_concerns hfind hother

/-- A registry after events: what holds at that point, and what has been done
under every id. -/
structure Lifecycle (start : TransactionRun π)
    (before : List (TransactionEvent π)) : Prop where
  orderly : Orderly (start.run before)
  /-- The timeout of the registry is the one that it started with. -/
  usual : (start.run before).registry.timeout = start.registry.timeout
  /-- A transaction has the work that was last put there, of what was taken. -/
  stored : ∀ id t, (start.run before).registry.record? id = some t →
    t.pending = TransactionRun.stored id start none before
  /-- What commits of an id have submitted is the work of the transaction,
  once, if that is committed, and nothing if it is not. -/
  submitted : ∀ id, submissions id start before
    = match (start.run before).registry.record? id with
      | some t => if t.state = .committed then t.pending.toList else []
      | none => []

/-- Every registry, after any run of events from its construction on, is in
this order, and its timeout is the integer part of the one that it was made
with. -/
theorem lifecycle {timeout : Value} {registry : Transactions π}
    (h : Transactions.ofTimeout timeout = .ok registry)
    (before : List (TransactionEvent π)) :
    timeout.toInt = .ok registry.timeout ∧
      Lifecycle (.start registry) before := by
  obtain ⟨n, hn, rfl⟩ := ofTimeout_eq_ok h
  have hstanding : Standing (π := π) (.start ⟨n, 0, [], []⟩) :=
    standing_start n
  have haccounts := (accounts_start n).run hstanding before
  refine ⟨hn, (hstanding.run before).orderly, timeout_run hstanding before,
    fun id t hfind => ?_, haccounts.submitted⟩
  have hstored := haccounts.stored id
  rw [hfind] at hstored
  exact hstored

/-- A registry whose transactions expire after half a minute. -/
def sampleStart : TransactionRun Nat := .start ⟨30000, 0, [], []⟩

/-- A first transaction is given work, and a second one begins that has a
timeout of its own. -/
def sampleBegun : List (TransactionEvent Nat) :=
  [.begin .null, .store "tx-1" (some 7), .begin (.int 5)]

/-- The first is committed, the clock comes to the time of the second one, and
a third one begins. -/
def sampleEvents : List (TransactionEvent Nat) :=
  sampleBegun ++ [.commit "tx-1" none, .advance 5, .store "tx-2" (some 8),
    .begin .null]

/-- Of three transactions the first is committed with the work that was stored
last, the second expires after its own timeout, and the third is open still;
what was submitted under the first is that work, once. -/
theorem lifecycle_sampleEvents :
    Transactions.ofTimeout (.int 30000) = .ok sampleStart.registry ∧
      (∃ t, (sampleStart.run sampleEvents).registry.record? "tx-1" = some t ∧
        t.state = .committed ∧ t.pending = some 7) ∧
      (∃ t, (sampleStart.run sampleEvents).registry.record? "tx-2" = some t ∧
        t.state = .expired ∧ t.begun = 0 ∧
        t.timeout = some (.finite (.ofInt 5))) ∧
      (∃ t, (sampleStart.run sampleEvents).registry.record? "tx-3" = some t ∧
        t.state = .active ∧ t.begun = 5 ∧
        t.timeout = some (.finite (.ofInt 30000))) ∧
      submissions "tx-1" sampleStart sampleEvents = [7] := by
  have hmade : Transactions.ofTimeout (.int 30000)
      = .ok sampleStart.registry := rfl
  have hlife (before : List (TransactionEvent Nat)) :
      Lifecycle sampleStart before := (lifecycle hmade before).2
  have hnext (before : List (TransactionEvent Nat))
      (e : TransactionEvent Nat) :
      sampleStart.run (before ++ [e])
        = ((sampleStart.run before).step e).2.2 :=
    sampleStart.run_append before [e]
  -- the commit ends the first transaction with its work
  have hfirst : (sampleStart.run sampleBegun).registry.record? "tx-1"
      = some ⟨"tx-1", 0, some (.finite (.ofInt 30000)), some 7,
        .active, true⟩ :=
    rfl
  obtain ⟨-, -, hcommitted, -⟩ :=
    (hlife sampleBegun).orderly.commits _ _ none hfirst rfl
  rw [← hnext] at hcommitted
  have hstays₁ := (hlife _).orderly.stays _ _ hcommitted (by decide)
    [.advance 5, .store "tx-2" (some 8), .begin .null]
  rw [← run_append, List.append_assoc] at hstays₁
  -- the second one has its own timeout and is left alone by the commit
  obtain ⟨-, t₂, place₂, hsecond, hbegun₂, hplace₂, htimeout₂, -, hopen₂, -⟩ :=
    (hlife (sampleBegun.take 2)).orderly.begins (.int 5) "tx-2" rfl
  obtain rfl : some (.finite (.ofInt 5)) = place₂ := Option.some.inj hplace₂
  have htime₂ := Transaction.timeUp_iff_of_timeout htimeout₂
  rw [show t₂.begun = 0 from hbegun₂] at htime₂
  have hactive₂ : t₂.state = .active :=
    hopen₂.mpr ((htime₂ _).not.mpr (by decide))
  obtain ⟨hleft, -⟩ :=
    (hlife sampleBegun).orderly.apart (.commit "tx-1" none) _ _ hsecond
      (show "tx-1" ≠ "tx-2" by decide)
  -- it expires when the clock comes to its time, and stays so
  rw [← hnext] at hleft
  obtain ⟨t₂', hmoved, hbegun₂', htimeout₂', -, -, hclock⟩ :=
    (hlife _).orderly.becomes (.advance 5) _ _ hleft hactive₂
  have hexpired : t₂'.state = .expired :=
    (hclock rfl).1.mpr ((htime₂ _).mpr (by decide))
  rw [← hnext] at hmoved
  have hstays₂ := (hlife _).orderly.stays _ _ hmoved (by rw [hexpired]; decide)
    [.store "tx-2" (some 8), .begin .null]
  rw [← run_append, List.append_assoc, List.append_assoc] at hstays₂
  -- the third one has the timeout of the registry
  obtain ⟨-, t₃, place₃, hthird, hbegun₃, hplace₃, htimeout₃, -, hopen₃, -⟩ :=
    (hlife (sampleEvents.take 6)).orderly.begins .null "tx-3" rfl
  obtain rfl : some (.finite (.ofInt 30000)) = place₃ :=
    Option.some.inj hplace₃
  have htime₃ := Transaction.timeUp_iff_of_timeout htimeout₃
  rw [show t₃.begun = 5 from hbegun₃] at htime₃
  refine ⟨hmade, ⟨_, hstays₁, rfl, rfl⟩,
    ⟨t₂', hstays₂, hexpired, hbegun₂'.trans hbegun₂,
    htimeout₂'.trans htimeout₂⟩,
    ⟨t₃, hthird, hopen₃.mpr ((htime₃ _).not.mpr (by decide)), hbegun₃,
      htimeout₃⟩, ?_⟩
  rw [(hlife sampleEvents).submitted "tx-1",
    show (sampleStart.run sampleEvents).registry.record? "tx-1"
      = _ from hstays₁]
  rfl

end TransactionRun

end GraphMapper

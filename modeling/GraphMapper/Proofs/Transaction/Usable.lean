/-
How long a transaction that has begun can be used.

It can for as long as the clock has not moved on by its wait (`Usable`): its
own timeout if that is given, or else the whole part of the registry's. A wait
need not be positive, since a timeout of its own is not looked at, and the
registry's timeout is looked at before its whole part is taken. Then the
transaction is over before it can be used (`begun_usable`).

An open transaction is followed along a run: events that do not end it leave it
open up to the first at which the clock comes to its time, and expired from
there on (`Standing.run_of_open`). What the timeouts are is told by the numbers
that they stand for (`ofTimeout_eq_ok_iff`, `timeoutOf_eq`).

Main statement: `begun_usable`.

Chain: `Lifecycle` says when a transaction ends; `Number.Rounding` says what a
quotient by a thousand is rounded to.
-/
import GraphMapper.Proofs.Number.Rounding
import GraphMapper.Proofs.Transaction.Lifecycle
import Mathlib.Data.Rat.Floor

namespace GraphMapper

variable {π : Type}

-- ================================================================= statements

/-- The place of a number on the number line, if it is finite. -/
def Value.number? (v : Value) : Option ℚ :=
  match v.position? with
  | some (some (.finite q)) => some q.toRat
  | _ => none

/-- The milliseconds that are waited for the end of a transaction: its own
timeout, or the usual one where none is given. -/
def Value.waitOr (usual : Int) (own : Value) : ℚ :=
  if own.isGiven then (if own.isLost then 0 else own.number?.getD 0) else usual

/-- The integer that counts, a timeout of its own or the usual one, has no
floating-point form. -/
def Value.Formless (usual : Int) (own : Value) : Prop :=
  ∃ n, (own = .int n ∨ own.isGiven = false ∧ n = usual) ∧
    Binary64.ofInt? n = none

/-- The milliseconds by which events move the clock on. -/
def TransactionEvent.elapsedBy (events : List (TransactionEvent π)) : Int :=
  (events.map (·.elapsed)).sum

namespace TransactionRun

open Transactions

/-- A transaction can be used: its work is told, other work is put in its
place, and a commit submits it. -/
structure Accepts (r : TransactionRun π) (id : String) : Prop where
  isOpen : r.registry.isOpen id = true
  tells : ∃ work, (r.step (.pending id)).1 = .ok (.work work)
    ∧ (r.step (.commit id none)).1 = .ok .nothing ∧
    (r.step (.commit id none)).2.1 = work.toList
  takes : ∀ work, (r.step (.store id work)).1 = .ok .nothing
    ∧ ((r.step (.store id work)).2.2.step (.pending id)).1 = .ok (.work work)

/-- A transaction has expired, and whatever is asked of it is refused and
changes nothing. -/
structure Over (r : TransactionRun π) (id : String) : Prop where
  expired : (r.registry.record? id).map (·.state) = some .expired
  refuses : r.step (.pending id) = (.error (notFound id), [], r)
    ∧ (∀ work, r.step (.store id work) = (.error (notFound id), [], r))
    ∧ ∀ failure, r.step (.commit id failure) = (.error (notFound id), [], r)

/-- A transaction can be used until the clock has moved on by so many
milliseconds, as long as nothing ends it, and is over as soon as the clock has
been moved there. -/
structure Usable (r : TransactionRun π) (id : String) (wait : ℚ) : Prop where
  before : ∀ later, (∀ e ∈ later, e.ends id = none) →
    (∀ part, part <+: later → (TransactionEvent.elapsedBy part : ℚ) < wait) →
    Accepts (r.run later) id
  after : ∀ later, (∀ e ∈ later, e.ends id = none) →
    (∃ part, part <+: later ∧ wait ≤ (TransactionEvent.elapsedBy part : ℚ)) →
    Over (r.run later) id

end TransactionRun

-- =================================================================== numbers

/-- Ratios that are equal stand for one number, whatever their terms. -/
private theorem Ratio.beq_iff (a b : Ratio) :
    a.beq b = true ↔ a.toRat = b.toRat := by
  have ha : (a.den : ℚ) ≠ 0 := by exact_mod_cast a.den_pos.ne'
  have hb : (b.den : ℚ) ≠ 0 := by exact_mod_cast b.den_pos.ne'
  unfold Ratio.beq Ratio.toRat
  rw [decide_eq_true_eq, div_eq_div_iff ha hb]
  norm_cast

/-- A significand and a power of two. -/
private theorem Ratio.toRat_scaled (c e : Int) :
    (Ratio.scaled c e).toRat = c * (2 : ℚ) ^ e := by
  unfold Ratio.scaled Ratio.toRat
  by_cases he : 0 ≤ e
  · obtain ⟨k, rfl⟩ := Int.eq_ofNat_of_zero_le he
    simp [Binary64.cast_twoPow]
  · obtain ⟨k, rfl⟩ := Int.exists_eq_neg_ofNat (Int.le_of_not_le he)
    rw [if_neg he]
    simp [Binary64.cast_twoPow, div_eq_mul_inv]

namespace Value

variable {a b : Value} {x y : ℚ}

/-- A value has a number if it has a finite position. -/
private theorem number?_eq_some_iff :
    a.number? = some x ↔ ∃ q : Ratio,
      a.position? = some (some (.finite q)) ∧ q.toRat = x := by
  unfold number?
  split
  · next q hq => rw [hq]; simp
  · next hno =>
    refine iff_of_false (by simp) ?_
    rintro ⟨q, hq, -⟩
    exact hno q hq

/-- Numbers are in order when their places are. -/
private theorem related?_number (ha : a.number? = some x)
    (hb : b.number? = some y) :
    related? .atMost a b = some (decide (x ≤ y)) := by
  obtain ⟨p, hp, rfl⟩ := number?_eq_some_iff.mp ha
  obtain ⟨q, hq, rfl⟩ := number?_eq_some_iff.mp hb
  have horder : ((Position.finite p).order (.finite q) != .gt)
      = decide (p.toRat ≤ q.toRat) := by
    unfold Position.order
    show ((if p.lt q = true then Ordering.lt
      else if p.beq q = true then .eq else .gt) != .gt) = _
    simp only [Ratio.lt_iff, Ratio.beq_iff]
    rcases lt_trichotomy p.toRat q.toRat with h | h | h
    · simp [h, h.le]
    · simp [h]
    · simp [h.not_gt, h.ne', h.not_ge]
  have hrelated : related? .atMost a b
      = (orderAtoms? a b).map fun o =>
        (o.map Relation.atMost.admits).getD false := by
    cases a <;> first | rfl | cases hp
  rw [hrelated]
  unfold orderAtoms?
  rw [hp, hq]
  exact congrArg some horder

/-- The integer part of a number that is not negative is its whole part. -/
private theorem toInt_number (ha : a.number? = some x) (hx : 0 ≤ x) :
    a.toInt = .ok ⌊x⌋ := by
  obtain ⟨q, hq, rfl⟩ := number?_eq_some_iff.mp ha
  cases a with
  | bool b =>
      obtain rfl : Ratio.ofInt (if b then 1 else 0) = q := by
        simpa [position?] using hq
      rw [Ratio.toRat_ofInt, Int.floor_intCast]
      rfl
  | int n =>
      obtain rfl : Ratio.ofInt n = q := by simpa [position?] using hq
      rw [Ratio.toRat_ofInt, Int.floor_intCast]
      rfl
  | float y =>
      cases y with
      | finite negative m e h =>
          obtain rfl : Ratio.scaled (if negative then -(m : Int) else m) e
              = q := by
            simpa [position?, Binary64.position?] using hq
          rw [Ratio.toRat_scaled] at hx ⊢
          have hvalue := (Binary64.terms_eq m e).2
          have hwhole : ⌊(m : ℚ) * 2 ^ e⌋
              = ((Binary64.terms m e).1 / (Binary64.terms m e).2 : Nat) := by
            rw [← hvalue, Rat.floor_natCast_div_natCast, Int.natCast_div]
          cases negative with
          | false =>
              show Except.ok
                (((Binary64.terms m e).1 / (Binary64.terms m e).2 : Nat) : Int)
                  = _
              rw [← hwhole]
              rfl
          | true =>
              -- only the negative zero is not negative
              have hpos : (0 : ℚ) < 2 ^ e := by positivity
              have hm : (m : ℚ) ≤ 0 := by
                have hminus := nonneg_of_mul_nonneg_left hx hpos
                rw [if_pos rfl, Int.cast_neg] at hminus
                simpa using hminus
              obtain rfl : m = 0 := Nat.le_zero.mp (by exact_mod_cast hm)
              show Except.ok
                (-(((Binary64.terms 0 e).1 / (Binary64.terms 0 e).2 : Nat) :
                  Int)) = _
              rw [← hwhole]
              simp
      | nan payload => simp [position?, Binary64.position?] at hq
      | infinite negative =>
          cases negative <;> simp [position?, Binary64.position?] at hq
  | _ => cases hq

/-- What is no number is in no order with one. -/
private theorem related?_of_no_number (ha : a.position? = none) (n : Int) :
    related? .atMost a (.int n) = none := by
  cases a with
  | symbol s => cases s <;> rfl
  | bool b => cases ha
  | int n => cases ha
  | float x => cases ha
  | _ => rfl

/-- NaN and the infinities have no integer part. -/
private theorem toInt_of_not_finite {place : Option Position}
    (ha : a.position? = some place) (hnone : a.number? = none) :
    ∃ e, a.toInt = .error e := by
  unfold number? at hnone
  cases a with
  | bool b => cases hnone
  | int n => cases hnone
  | float x =>
      cases x with
      | finite negative m e h => cases hnone
      | nan payload => exact ⟨_, rfl⟩
      | infinite negative => exact ⟨_, rfl⟩
  | _ => cases ha

end Value

namespace Transactions

variable {timeout own : Value} {registry : Transactions π}

/-- A registry is made for every finite positive number, and for nothing
else. -/
theorem ofTimeout_eq_ok_iff : ofTimeout timeout = .ok registry ↔
    ∃ limit, timeout.number? = some limit ∧ 0 < limit ∧
    registry = ⟨⌊limit⌋, 0, [], []⟩ := by
  have hzero : Value.number? (.int 0) = some 0 := by
    rw [Value.number?_eq_some_iff]
    exact ⟨.ofInt 0, rfl, by simp⟩
  cases hnumber : timeout.number? with
  | some limit =>
      unfold ofTimeout
      rw [Value.related?_number hnumber hzero]
      by_cases hpos : 0 < limit
      · rw [decide_eq_false (not_le.mpr hpos)]
        show (do Except.ok (⟨← timeout.toInt, 0, [], []⟩ : Transactions π)) = _
            ↔ _
        rw [Value.toInt_number hnumber hpos.le]
        simp [hpos, eq_comm, bind, Except.bind]
      · rw [decide_eq_true (not_lt.mp hpos)]
        simp [hpos]
  | none =>
      refine iff_of_false (fun hmade => ?_) (by simp)
      unfold ofTimeout at hmade
      cases hplace : timeout.position? with
      | none =>
          rw [Value.related?_of_no_number hplace 0] at hmade
          cases hmade
      | some place =>
          have hint : ∃ e, timeout.toInt = .error e :=
            Value.toInt_of_not_finite hplace hnumber
          obtain ⟨e, he⟩ := hint
          rw [he] at hmade
          split at hmade <;> cases hmade

/-- Whole numbers are dealt with alike, whether they are a transaction's own or
the registry's. -/
private theorem timeoutOf_whole (r : Transactions π) {n : Int}
    (hchosen : (if own.isGiven then own else .int r.timeout) = .int n)
    (hsource : own = .int n ∨ own.isGiven = false ∧ n = r.timeout) :
    own.Formless r.timeout ∧ r.timeoutOf own = .error (.slip .overflow) ∨
      ∃ q : Ratio, r.timeoutOf own = .ok (some (.finite q)) ∧ q.toRat = n := by
  unfold timeoutOf
  rw [hchosen]
  cases hform : Binary64.ofInt? n with
  | none => exact .inl ⟨⟨n, hsource, hform⟩, by simp only [hform]⟩
  | some x => exact .inr ⟨.ofInt n, by simp only [hform], Ratio.toRat_ofInt n⟩

/-- A number that has a floating-point form is waited for. -/
theorem timeoutOf_eq (r : Transactions π)
    (hown : own = .null ∨ own.number?.isSome = true) :
    own.Formless r.timeout ∧ r.timeoutOf own = .error (.slip .overflow) ∨
      ∃ q : Ratio, r.timeoutOf own = .ok (some (.finite q)) ∧
      q.toRat = own.waitOr r.timeout := by
  by_cases hgiven : own.isGiven = true
  swap
  · rw [show own.waitOr r.timeout = r.timeout from if_neg hgiven]
    exact r.timeoutOf_whole (if_neg hgiven)
      (.inr ⟨Bool.eq_false_iff.mpr hgiven, rfl⟩)
  -- a given number is taken as it is, but a float whose seconds vanish
  -- counts as zero
  cases own with
  | bool b =>
      obtain rfl : b = true := hgiven
      exact .inr ⟨.ofInt 1, rfl, rfl⟩
  | int n =>
      have hwait : Value.waitOr r.timeout (.int n) = n :=
        (if_pos hgiven).trans (Ratio.toRat_ofInt n)
      rw [hwait]
      exact r.timeoutOf_whole (if_pos hgiven) (.inl rfl)
  | float x =>
      cases x with
      | finite negative m e h =>
          unfold timeoutOf Value.waitOr
          simp only [if_pos hgiven]
          by_cases hlost :
            ((Binary64.finite negative m e h).divideBy 1000).isZero = true
          · exact .inr
              ⟨.ofInt 0, by rw [if_pos hlost], by simp [Value.isLost, hlost]⟩
          · refine .inr ⟨.scaled (if negative then -(m : Int) else m) e, ?_,
              ?_⟩
            · rw [if_neg hlost]
              rfl
            · simp [Value.isLost, hlost]
              rfl
      | nan payload =>
          simp [Value.number?, Value.position?, Binary64.position?] at hown
      | infinite negative =>
          cases negative <;>
            simp [Value.number?, Value.position?, Binary64.position?] at hown
  | null => cases hgiven
  | _ => exact absurd hown (by simp [Value.number?, Value.position?])

end Transactions

namespace TransactionRun

open Transactions Transaction

variable {r : TransactionRun π} {id : String} {t : Transaction π} {wait : ℚ}

-- ============================================================== along a run

/-- An event moves the clock by what it takes. -/
private theorem now_step (h : Standing r) (e : TransactionEvent π) :
    (r.step e).2.2.now = r.now + e.elapsed := by
  rw [step_eq h.consistent]

/-- The time of what is open is not up. -/
private theorem Standing.not_timeUp (h : Standing r)
    (hfind : r.registry.record? id = some t) (hactive : t.state = .active) :
    ¬t.TimeUp r.now := by
  rw [← t.isDue_iff, h.prompt t (mem_of_record? hfind).1 hactive]
  exact Bool.false_ne_true

/-- An open transaction that nothing ends is open until the clock comes to its
time, and expired from there on. -/
theorem Standing.run_of_open (h : Standing r)
    (hfind : r.registry.record? id = some t) (hactive : t.state = .active)
    {later : List (TransactionEvent π)}
    (hlater : ∀ e ∈ later, e.ends id = none) :
    ∃ t', (r.run later).registry.record? id = some t' ∧
      ((∀ part, part <+: later →
        ¬t.TimeUp (r.now + TransactionEvent.elapsedBy part)) →
        t'.state = .active) ∧
      ((∃ part, part <+: later ∧
        t.TimeUp (r.now + TransactionEvent.elapsedBy part)) →
        t'.state = .expired) := by
  -- on the later events; once the time is up nothing brings the record back
  induction later generalizing r t with
  | nil =>
      refine ⟨t, hfind, fun _ => hactive, ?_⟩
      rintro ⟨part, hpart, hup⟩
      obtain rfl := List.prefix_nil.mp hpart
      exact absurd (by simpa [TransactionEvent.elapsedBy] using hup)
        (h.not_timeUp hfind hactive)
  | cons e later ih =>
      obtain ⟨t₁, hnext, hbegun, htimeout, -, -, htime⟩ :=
        h.step_of_open hfind hactive e
      obtain ⟨hexpired, hstays⟩ := htime (hlater e List.mem_cons_self)
      have hup : ∀ now, t₁.TimeUp now ↔ t.TimeUp now := by
        intro now
        unfold Transaction.TimeUp
        rw [htimeout, hbegun]
      by_cases hnow : t.TimeUp (r.now + e.elapsed)
      · have hended : t₁.state ≠ .active := by
          rw [hexpired.mpr hnow]
          decide
        refine ⟨t₁, (h.step e).record?_run_of_ended hnext hended later,
          fun hnever => ?_, fun _ => hexpired.mpr hnow⟩
        refine absurd hnow ?_
        simpa [TransactionEvent.elapsedBy] using hnever [e] ⟨later, rfl⟩
      · obtain ⟨t', hfind', hopen, hover⟩ :=
            ih (h.step e) hnext (hstays.mpr hnow) fun e' he' =>
          hlater e' (List.mem_cons_of_mem e he')
        have hclock : ∀ part,
            (r.step e).2.2.now + TransactionEvent.elapsedBy part
              = r.now + TransactionEvent.elapsedBy (e :: part) := by
          intro part
          rw [now_step h]
          simp [TransactionEvent.elapsedBy, Int.add_assoc]
        simp only [hup, hclock] at hopen hover
        refine ⟨t', hfind', fun hnever => ?_, ?_⟩
        · exact hopen fun part hpart =>
            hnever (e :: part) (List.prefix_cons_inj e |>.mpr hpart)
        · rintro ⟨part, hpart, hdone⟩
          cases part with
          | nil =>
              exact absurd (by simpa [TransactionEvent.elapsedBy] using hdone)
                (h.not_timeUp hfind hactive)
          | cons e' part =>
              obtain ⟨rfl, hrest⟩ := List.cons_prefix_cons.mp hpart
              exact hover ⟨part, hrest, hdone⟩

/-- What is open can be used. -/
theorem Standing.accepts (h : Standing r)
    (hfind : r.registry.record? id = some t) (hactive : t.state = .active) :
    Accepts r id := by
  have hopen : r.registry.isOpen id = true :=
    (h.consistent.isOpen_iff_active hfind).mpr hactive
  -- asking an open record answers with its pending work
  have htold : ∀ {r' : TransactionRun π} {t' : Transaction π},
      r'.registry.isOpen id = true → r'.registry.record? id = some t' →
      (r'.step (.pending id)).1 = .ok (.work t'.pending) := by
    intro r' t' hopen' hfind'
    show (r'.registry.pending id).map TransactionAnswer.work = _
    unfold Transactions.pending
    rw [find?_of_open hopen', hfind']
    rfl
  refine ⟨hopen, ⟨t.pending, htold hopen hfind, ?_, ?_⟩, fun work => ⟨?_, ?_⟩⟩
  · rw [(h.step_commit hfind hactive none).1]
    cases t.pending <;> rfl
  · exact (h.step_commit hfind hactive none).2.1
  · show (r.handle (.store id work)).1 = _
    unfold handle Transactions.store
    simp only [hopen, if_true]
  · obtain ⟨t', hnext, hbegun, htimeout, hpending, -, htime⟩ :=
      h.step_of_open hfind hactive (.store id work)
    have hstays : t'.state = .active := by
      refine (htime rfl).2.mpr ?_
      rw [show (TransactionEvent.store id work : TransactionEvent π).elapsed
          = 0 from rfl, Int.add_zero]
      exact h.not_timeUp hfind hactive
    have hwork : t'.pending = work := by
      rw [hpending]
      show ((if id = id then some work else none).getD t.pending) = work
      rw [if_pos rfl]
      rfl
    have hopen' :=
      ((h.step (.store id work)).consistent.isOpen_iff_active hnext).mpr hstays
    rw [htold hopen' hnext, hwork]

/-- What has expired is over. -/
theorem Standing.over (h : Standing r) (hfind : r.registry.record? id = some t)
    (hexpired : t.state = .expired) : Over r id := by
  have hclosed : r.registry.isOpen id = false := by
    rw [Bool.eq_false_iff, Ne, h.consistent.isOpen_iff_active hfind, hexpired]
    decide
  obtain ⟨hcommit, hstore, hpending, -⟩ := h.closed hclosed
  exact ⟨by rw [hfind, Option.map_some, hexpired], hpending, hstore, hcommit⟩

-- ========================================================= from the beginning

/-- A transaction whose timeout is a number can be used for so long. -/
theorem Standing.usable (h : Standing r) {own : Value} {q : Ratio}
    (hok : (r.step (.begin own)).1 = .ok (.id id))
    (htimeout : r.registry.timeoutOf own = .ok (some (.finite q))) :
    Usable (r.step (.begin own)).2.2 id q.toRat := by
  obtain ⟨-, t, hfind, hbegun, hgiven, -, hopen, hexpired⟩ := h.step_begin hok
  have hq : t.timeout = some (.finite q) :=
    (Except.ok.inj (htimeout.symm.trans hgiven)).symm
  -- the time is up when the timeout has passed since the beginning
  have hup : ∀ n : Int, t.TimeUp (r.now + n) ↔ q.toRat ≤ n := by
    intro n
    unfold Transaction.TimeUp
    rw [hq, hbegun, Int.cast_add]
    exact add_le_add_iff_left _
  have hnow : (r.step (.begin own)).2.2.now = r.now :=
    (now_step h _).trans (Int.add_zero _)
  have hstart : t.TimeUp r.now ↔ q.toRat ≤ 0 := by
    have hzero := hup 0
    rwa [Int.add_zero, Int.cast_zero] at hzero
  have hempty :
      ((TransactionEvent.elapsedBy ([] : List (TransactionEvent π)) : Int) : ℚ)
        = 0 := by
    simp [TransactionEvent.elapsedBy]
  -- before the timeout the record is open after any events that do not end it;
  -- afterwards it is not
  constructor
  · intro later hlater hearly
    have hpositive : 0 < q.toRat := by
      have hnone := hearly [] List.nil_prefix
      rwa [hempty] at hnone
    have hactive := hopen.mpr (mt hstart.mp (not_le.mpr hpositive))
    obtain ⟨t', hfind', hstays, -⟩ :=
      (h.step _).run_of_open hfind hactive hlater
    refine ((h.step _).run later).accepts hfind' (hstays fun part hpart => ?_)
    rw [hnow, hup, not_le]
    exact hearly part hpart
  · rintro later hlater ⟨part, hpart, hlate⟩
    by_cases hpositive : 0 < q.toRat
    · have hactive := hopen.mpr (mt hstart.mp (not_le.mpr hpositive))
      obtain ⟨t', hfind', -, hover⟩ :=
        (h.step _).run_of_open hfind hactive hlater
      refine ((h.step _).run later).over hfind' (hover ⟨part, hpart, ?_⟩)
      rw [hnow, hup]
      exact hlate
    · have hgone := hexpired.mpr (hstart.mpr (not_lt.mp hpositive))
      have hended : t.state ≠ .active := by
        rw [hgone]
        decide
      exact ((h.step _).run later).over
        ((h.step _).record?_run_of_ended hfind hended later) hgone

/-- It is over before any time passes if there is nothing to wait for, and only
then. -/
private theorem Usable.over_iff (h : Usable r id wait) :
    Over r id ↔ wait ≤ 0 := by
  constructor
  · intro hover
    by_contra hpositive
    have haccepts : Accepts r id := by
      refine h.before [] (fun e he => absurd he List.not_mem_nil)
        fun part hpart => ?_
      obtain rfl := List.prefix_nil.mp hpart
      simpa [TransactionEvent.elapsedBy] using hpositive
    obtain ⟨work, hwork, -⟩ := haccepts.tells
    rw [hover.refuses.1] at hwork
    cases hwork
  · intro hnone
    refine h.after [] (fun e he => absurd he List.not_mem_nil)
      ⟨[], List.nil_prefix, ?_⟩
    simpa [TransactionEvent.elapsedBy] using hnone

/-- Nothing is waited for if a timeout of its own is negative or lost, or if
the registry's is less than one. -/
private theorem waitOr_nonpos_iff {own : Value}
    (hown : own = .null ∨ own.number?.isSome = true) (limit : ℚ) :
    own.waitOr ⌊limit⌋ ≤ 0 ↔
      own.isGiven = true ∧
      (own.isLost = true ∨ ∃ x ≤ 0, own.number? = some x) ∨
        own.isGiven = false ∧ limit < 1 := by
  unfold Value.waitOr
  by_cases hgiven : own.isGiven = true
  · rw [if_pos hgiven]
    obtain ⟨x, hx⟩ : ∃ x, own.number? = some x := by
      rcases hown with rfl | hnumber
      · cases hgiven
      · exact Option.isSome_iff_exists.mp hnumber
    cases hlost : own.isLost <;> simp [hgiven, hx]
  · rw [if_neg hgiven]
    have hfloor : ⌊limit⌋ ≤ 0 ↔ limit < 1 := by
      rw [← Int.lt_add_one_iff, Int.floor_lt]
      norm_num
    simp [hgiven, ← hfloor]

/-- A transaction begins unless its timeout has no floating-point form, and can
be used for its wait. -/
theorem Standing.begun (h : Standing r) {own : Value}
    (hown : own = .null ∨ own.number?.isSome = true) :
    own.Formless r.registry.timeout ∧
      (r.step (.begin own)).1 = .error (.slip .overflow) ∨ ∃ id,
      (r.step (.begin own)).1 = .ok (.id id) ∧
        Usable (r.step (.begin own)).2.2 id
          (own.waitOr r.registry.timeout) := by
  rw [begin_answer]
  rcases timeoutOf_eq r.registry hown with ⟨hformless, herror⟩
    | ⟨q, hwaits, hq⟩
  · rw [herror]
    exact .inl ⟨hformless, rfl⟩
  · have hok : (r.step (.begin own)).1
        = .ok (.id (idOf (r.registry.issued + 1))) := by
      rw [begin_answer, hwaits]
      rfl
    rw [hwaits, ← hq]
    exact .inr ⟨_, rfl, h.usable hok hwaits⟩

/-- Of a registry that is made, whatever has happened to it, a transaction of
its usual timeout or a finite one of its own begins and can be used until the
clock has moved on by its wait, and is over from then on. It does not begin
only if its timeout has no floating-point form; and it is over before any time
passes just when its own timeout is negative or no time in seconds, or the
registry's is less than one. -/
theorem begun_usable {timeout own : Value} {registry : Transactions π}
    (hmade : Transactions.ofTimeout timeout = .ok registry)
    (hown : own = .null ∨ own.number?.isSome = true)
    (before : List (TransactionEvent π)) :
    let begun := ((TransactionRun.start registry).run before).step (.begin own)
    ∃ limit, timeout.number? = some limit ∧ 0 < limit ∧
      (own.Formless ⌊limit⌋ ∧ begun.1 = .error (.slip .overflow) ∨
        ∃ id, begun.1 = .ok (.id id) ∧
        Usable begun.2.2 id (own.waitOr ⌊limit⌋) ∧
          (Over begun.2.2 id ↔
            own.isGiven = true ∧
            (own.isLost = true ∨ ∃ x ≤ 0, own.number? = some x) ∨
              own.isGiven = false ∧ limit < 1)) := by
  intro begun
  obtain ⟨limit, hlimit, hpositive, rfl⟩ := ofTimeout_eq_ok_iff.mp hmade
  refine ⟨limit, hlimit, hpositive, ?_⟩
  have hstart : Standing
      (TransactionRun.start (⟨⌊limit⌋, 0, [], []⟩ : Transactions π)) :=
    standing_start ⌊limit⌋
  have hbegun := (hstart.run before).begun hown
  rw [timeout_run hstart before] at hbegun
  rcases hbegun with herror | ⟨id, hok, husable⟩
  · exact .inl herror
  · exact .inr ⟨id, hok, husable,
      husable.over_iff.trans (waitOr_nonpos_iff hown limit)⟩

/-- A transaction with a timeout of its own begins when the first one has just
expired, and can be used. -/
theorem begun_usable_next :
    Transactions.ofTimeout (.int 30000)
      = .ok (⟨30000, 0, [], []⟩ : Transactions Nat) ∧ ∃ id,
      (((TransactionRun.start (⟨30000, 0, [], []⟩ : Transactions Nat)).run
          [.begin .null, .advance 30000]).step (.begin (.int 2))).1
            = .ok (.id id) ∧
        Usable
          (((TransactionRun.start (⟨30000, 0, [], []⟩ : Transactions Nat)).run
            [.begin .null, .advance 30000]).step
              (.begin (.int 2))).2.2 id 2 := by
  have hmade : Transactions.ofTimeout (.int 30000)
      = .ok (⟨30000, 0, [], []⟩ : Transactions Nat) := rfl
  have hown : Value.int 2 = .null ∨ (Value.int 2).number?.isSome = true :=
    .inr rfl
  have hform : (Binary64.ofInt? 2).isSome = true := by decide
  obtain ⟨limit, -, -, ⟨⟨n, hn, hnone⟩, -⟩ | ⟨id, hid, husable, -⟩⟩ :=
    begun_usable hmade hown [.begin .null, .advance 30000]
  · rcases hn with hn | ⟨hgiven, -⟩
    · rw [← Value.int.inj hn] at hnone
      rw [hnone] at hform
      cases hform
    · cases hgiven
  · have hwait : Value.waitOr ⌊limit⌋ (.int 2) = 2 := Ratio.toRat_ofInt 2
    rw [hwait] at husable
    exact ⟨hmade, id, hid, husable⟩

end TransactionRun

end GraphMapper

/-
A registry is its transactions side by side.

The registry looks ids up in a list of the open ones and changes records under
them, one id after the other. What comes of it can be said of one transaction
at a time: an event ends it, or puts work in its place, or leaves it
(`Transaction.meet`), and then it expires if its time is up
(`Transaction.settle`). Here the two are shown to be the same, for all
operations: each is a map over the records (`each`), after which the open ids
are those of the active records.

The invariant behind it is `Consistent`: no two records have one id, and the
open ids are those of the active records, which are the armed ones. Looking an
id up is then the same as looking for an active record
(`Consistent.isOpen_iff`).

# From lists to records

The operations are written over two lists, the records and the open ids, and
one of them walks the ids while it changes both. That is followed once, for
expiry (`Consistent.expire_eq`): as long as the ids are those of the active
records, to look at them one by one is to look at each record. After that no
proof looks at the list of ids any more, and `step_eq` says what an event does
in terms of one record alone.

Main statements: `step_eq`, `consistent_step`.

Chain: `Narrowing` has what the operations do to pending work; `Lifecycle`
follows one record along a run.
-/
import GraphMapper.Proofs.Transaction.Narrowing
import GraphMapper.Transaction.Run
import Mathlib.Data.List.Nodup

namespace GraphMapper

variable {π : Type}

-- ========================================================= one transaction

namespace TransactionEvent

/-- What an event ends the transaction of an id as, if it ends it. -/
def ends (id : String) : TransactionEvent π → Option TransactionState
  | .commit id' _ => if id' = id then some .committed else none
  | .rollback id' => if id' = id then some .rolledBack else none
  | .clear => some .rolledBack
  | _ => none

/-- The work that an event puts under an id, if it puts any there; the work may
be nothing. -/
def stores (id : String) : TransactionEvent π → Option (Option π)
  | .store id' work => if id' = id then some work else none
  | _ => none

/-- The milliseconds by which an event moves the clock on. -/
def elapsed : TransactionEvent π → Int
  | .advance milliseconds => milliseconds
  | _ => 0

end TransactionEvent

namespace Transaction

/-- Ends a transaction that is active and meets a condition. -/
def endIf (p : Transaction π → Bool) (state : TransactionState)
    (t : Transaction π) :
    Transaction π :=
  if t.state = .active ∧ p t = true then t.finish state else t

/-- What an event makes of a transaction before expiry is looked at. -/
def meet (e : TransactionEvent π) (t : Transaction π) : Transaction π :=
  if t.state = .active then
    match e.ends t.id with
    | some state => t.finish state
    | none =>
      match e.stores t.id with
      | some work => { t with pending := work }
      | none => t
  else t

/-- A transaction that is due expires. -/
def settle (now : Int) : Transaction π → Transaction π :=
  endIf (·.isDue now) .expired

/-- What a change of a transaction has to leave: its id, and that it is armed
while it is active. -/
structure Lawful (f : Transaction π → Transaction π) : Prop where
  id : ∀ t, (f t).id = t.id
  armed : ∀ t, t.armed = decide (t.state = .active) →
    (f t).armed = decide ((f t).state = .active)

/-- Two changes of a record that keep its id and never bring it back to life do
so one after the other. -/
private theorem Lawful.comp {f g : Transaction π → Transaction π}
    (hf : Lawful f) (hg : Lawful g) :
    Lawful (g ∘ f) where
  id := fun t => (hg.id (f t)).trans (hf.id t)
  armed := fun t h => hg.armed (f t) (hf.armed t h)

/-- To end a transaction is such a change. -/
private theorem lawful_endIf (p : Transaction π → Bool)
    {state : TransactionState}
    (hstate : state ≠ .active) : Lawful (endIf p state) := by
  refine ⟨fun t => ?_, fun t h => ?_⟩
  · unfold endIf
    split <;> rfl
  · unfold endIf
    split
    · show false = decide (state = .active)
      rw [decide_eq_false hstate]
    · exact h

/-- No event ends a transaction by making it active. -/
theorem ends_ne_active {e : TransactionEvent π} {id : String}
    {state : TransactionState} (h : e.ends id = some state) :
    state ≠ .active := by
  unfold TransactionEvent.ends at h
  split at h
  · split at h <;> cases h
    decide
  · split at h <;> cases h
    decide
  · cases h
    decide
  · cases h

/-- So what an event does to one record is lawful. -/
private theorem lawful_meet (e : TransactionEvent π) : Lawful (meet e) := by
  refine ⟨fun t => ?_, fun t h => ?_⟩
  · unfold meet
    split
    · split
      · rfl
      · split <;> rfl
    · rfl
  · unfold meet
    split
    · split
      · next state hends =>
        show false = decide (state = .active)
        rw [decide_eq_false (ends_ne_active hends)]
      · split <;> exact h
    · exact h

/-- And so is to look whether its time is up. -/
private theorem lawful_settle (now : Int) : Lawful (settle (π := π) now) :=
  lawful_endIf _ (by decide)

/-- What has ended stays as it is. -/
theorem meet_of_ended (e : TransactionEvent π) {t : Transaction π}
    (h : t.state ≠ .active) :
    meet e t = t := if_neg h

/-- What has ended does not expire. -/
theorem settle_of_ended (now : Int) {t : Transaction π}
    (h : t.state ≠ .active) :
    settle now t = t := if_neg fun hactive => h hactive.1

/-- Nothing that is active afterwards is due. -/
theorem not_isDue_settle {now : Int} {t : Transaction π}
    (h : (settle now t).state = .active) :
    (settle now t).isDue now = false := by
  unfold settle endIf at h ⊢
  split at h
  · cases h
  · next hnot =>
    rw [if_neg hnot]
    cases hdue : t.isDue now with
    | true => exact absurd ⟨h, hdue⟩ hnot
    | false => rfl

/-- Neither does what is not due. -/
theorem settle_of_not_isDue {now : Int} {t : Transaction π}
    (h : t.state = .active → t.isDue now = false) : settle now t = t := by
  refine if_neg fun hboth => ?_
  have hdue : t.isDue now = true := hboth.2
  rw [h hboth.1] at hdue
  cases hdue

/-- Two ways to end a transaction as the same thing are one way. -/
private theorem endIf_endIf (p q : Transaction π → Bool)
    {state : TransactionState} (hstate : state ≠ .active) (t : Transaction π) :
    endIf q state (endIf p state t) = endIf (fun t => p t || q t) state t := by
  by_cases hactive : t.state = .active
  · cases hp : p t with
    | true =>
        have hend : endIf p state t = t.finish state := if_pos ⟨hactive, hp⟩
        rw [hend, show endIf q state (t.finish state)
            = _ from if_neg fun h => hstate h.1]
        exact (if_pos ⟨hactive, by simp only [hp, Bool.true_or]⟩).symm
    | false =>
        have hkeep : endIf p state t = t := if_neg fun h => by
          rw [hp] at h; cases h.2
        rw [hkeep]
        unfold endIf
        simp only [hp, Bool.false_or]
  · have hkeep : ∀ p' : Transaction π → Bool, endIf p' state t = t := fun p' =>
      if_neg fun h => hactive h.1
    rw [hkeep p, hkeep q, hkeep]

end Transaction

-- ======================================================== all of them at once

namespace Transactions

open Transaction

variable {r : Transactions π}

/-- The record of an id, whatever has become of its transaction. -/
def record? (r : Transactions π) (id : String) : Option (Transaction π) :=
  r.records.find? fun t => t.id == id

/-- The ids of the active records. -/
def activeIds (records : List (Transaction π)) : List String :=
  (records.filter fun t => decide (t.state = .active)).map (·.id)

/-- Changes all records, and keeps those ids open whose records are active. -/
def each (r : Transactions π) (f : Transaction π → Transaction π) :
    Transactions π :=
  { r with records := r.records.map f, openIds := activeIds (r.records.map f) }

/-- No two records have one id, the open ids are those of the active records,
and these are the armed ones. -/
structure Consistent (r : Transactions π) : Prop where
  accounted : Accounted r
  distinct : (r.records.map (·.id)).Nodup
  openIds : r.openIds = activeIds r.records
  armed : ∀ t ∈ r.records, t.armed = decide (t.state = .active)

/-- Two changes of all records are one. -/
private theorem each_each (r : Transactions π)
    (f g : Transaction π → Transaction π) :
    (r.each f).each g = r.each (g ∘ f) := by
  unfold each
  simp only [List.map_map]

/-- Only what is done to the records there are matters. -/
private theorem each_congr {f g : Transaction π → Transaction π}
    (h : ∀ t ∈ r.records, f t = g t) :
    r.each f = r.each g := by
  unfold each
  rw [List.map_congr_left h]

/-- To change nothing leaves a consistent registry, open ids included. -/
private theorem Consistent.each_self (h : Consistent r) :
    r.each (fun t => t) = r := by
  unfold each
  rw [List.map_id', ← h.openIds]

/-- So does any change that leaves each record. -/
theorem each_eq_self (h : Consistent r) {f : Transaction π → Transaction π}
    (hf : ∀ t ∈ r.records, f t = t) : r.each f = r := by
  rw [each_congr hf, h.each_self]

/-- Ids and their order stay. -/
private theorem ids_each (r : Transactions π)
    {f : Transaction π → Transaction π} (hf : Lawful f) :
    (r.each f).records.map (·.id) = r.records.map (·.id) := by
  show (r.records.map f).map (·.id) = _
  rw [List.map_map]
  exact List.map_congr_left fun t _ => hf.id t

/-- A change is seen under every id. -/
theorem record?_each (r : Transactions π) {f : Transaction π → Transaction π}
    (hf : Lawful f) (id : String) :
    (r.each f).record? id = (r.record? id).map f := by
  show (r.records.map f).find? (fun t => t.id == id) = _
  rw [List.find?_map]
  have hsame : ((fun t : Transaction π => t.id == id) ∘ f)
      = fun t => t.id == id := by
    funext t
    show ((f t).id == id) = (t.id == id)
    rw [hf.id]
  rw [hsame]
  rfl

-- ====================================================== reading the registry

/-- The ids of the active records. -/
private theorem mem_activeIds {records : List (Transaction π)} {id : String} :
    id ∈ activeIds records ↔ ∃ t ∈ records, t.state = .active ∧ t.id = id := by
  simp only [activeIds, List.mem_map, List.mem_filter,
    decide_eq_true_eq, and_assoc]

/-- A record that is found by an id is one of the records, and has the id. -/
theorem mem_of_record? {id : String} {t : Transaction π}
    (h : r.record? id = some t) :
    t ∈ r.records ∧ t.id = id :=
  ⟨List.mem_of_find?_eq_some h, by simpa using List.find?_some h⟩

/-- A record is the record of its id. -/
private theorem Consistent.record?_of_mem (h : Consistent r)
    {t : Transaction π} (ht : t ∈ r.records) :
    r.record? t.id = some t := by
  cases hfind : r.record? t.id with
  | none =>
      have hnone := List.find?_eq_none.mp hfind t ht
      exact absurd (beq_self_eq_true t.id) hnone
  | some t' =>
      obtain ⟨ht', hid⟩ := mem_of_record? hfind
      rw [List.inj_on_of_nodup_map h.distinct ht' ht hid]

/-- What is open is what has an active record. -/
theorem Consistent.isOpen_iff (h : Consistent r) {id : String} :
    r.isOpen id = true ↔ ∃ t, r.record? id = some t ∧ t.state = .active := by
  unfold isOpen
  rw [List.contains_iff_mem, h.openIds, mem_activeIds]
  constructor
  · rintro ⟨t, ht, hactive, rfl⟩
    exact ⟨t, h.record?_of_mem ht, hactive⟩
  · rintro ⟨t, hfind, hactive⟩
    obtain ⟨ht, hid⟩ := mem_of_record? hfind
    exact ⟨t, ht, hactive, hid⟩

/-- The record of an open id is active. -/
theorem Consistent.isOpen_iff_active (h : Consistent r) {id : String}
    {t : Transaction π} (hfind : r.record? id = some t) :
    r.isOpen id = true ↔ t.state = .active := by
  rw [h.isOpen_iff]
  constructor
  · rintro ⟨t', hfind', hactive⟩
    rw [hfind] at hfind'
    rw [Option.some.inj hfind']
    exact hactive
  · intro hactive
    exact ⟨t, hfind, hactive⟩

/-- What has no record is not open. -/
theorem Consistent.isOpen_of_none (h : Consistent r) {id : String}
    (hnone : r.record? id = none) : r.isOpen id = false := by
  rw [Bool.eq_false_iff, Ne, h.isOpen_iff, hnone]
  rintro ⟨t, hsome, -⟩
  cases hsome

/-- An open id is looked up among the records. -/
theorem find?_of_open {id : String} (hopen : r.isOpen id = true) :
    r.find? id = r.record? id := if_pos hopen

/-- Any other is not looked up at all. -/
theorem find?_of_closed {id : String} (hclosed : r.isOpen id = false) :
    r.find? id = none :=
  if_neg (by rw [hclosed]; decide)

-- ========================================================== keeping it

/-- A lawful change keeps the invariant: ids stay apart, and what is active was
active. -/
theorem Consistent.each (h : Consistent r) {f : Transaction π → Transaction π}
    (hf : Lawful f)
    (hended : ∀ t ∈ r.records, (f t).state = .active → t.state = .active) :
    Consistent (r.each f) where
  accounted :=
    { records := by
        intro t ht
        obtain ⟨t', ht', rfl⟩ := List.mem_map.mp ht
        rw [hf.id]
        exact h.accounted.records t' ht'
      openIds := by
        intro id hid
        obtain ⟨t, ht, hactive, rfl⟩ :=
          mem_activeIds.mp (List.contains_iff_mem.mp hid)
        obtain ⟨t', ht', rfl⟩ := List.mem_map.mp ht
        rw [hf.id]
        refine h.accounted.openIds t'.id
          ((h.isOpen_iff).mpr ⟨t', h.record?_of_mem ht', ?_⟩)
        exact hended t' ht' hactive }
  distinct := by
    rw [ids_each r hf]
    exact h.distinct
  openIds := rfl
  armed := by
    intro t ht
    obtain ⟨t', ht', rfl⟩ := List.mem_map.mp ht
    exact hf.armed t' (h.armed t' ht')

/-- What is active after an end was not the one that ended. -/
private theorem active_of_endIf {p : Transaction π → Bool}
    {state : TransactionState} (hstate : state ≠ .active) {t : Transaction π}
    (h : (endIf p state t).state = .active) :
    t.state = .active := by
  unfold endIf at h
  split at h
  · exact absurd h hstate
  · exact h

/-- An event makes nothing active. -/
private theorem active_of_meet {e : TransactionEvent π} {t : Transaction π}
    (h : (meet e t).state = .active) : t.state = .active := by
  by_cases hactive : t.state = .active
  · exact hactive
  · rwa [meet_of_ended e hactive] at h

/-- In particular, to end some transactions keeps the invariant. -/
theorem Consistent.endIf (h : Consistent r) (p : Transaction π → Bool)
    {state : TransactionState} (hstate : state ≠ .active) :
    Consistent (r.each (Transaction.endIf p state)) :=
  h.each (lawful_endIf p hstate) fun _ _ => active_of_endIf hstate

/-- A registry without transactions. -/
theorem consistent_empty (timeout : Int) :
    Consistent (π := π) ⟨timeout, 0, [], []⟩ where
  accounted := ⟨fun _ ht => (nomatch ht), fun _ hid => (nomatch hid)⟩
  distinct := List.nodup_nil
  openIds := rfl
  armed := fun _ ht => nomatch ht

-- ================================================ the operations, one by one

/-- To end what is open under an id is to end its active record. -/
private theorem Consistent.finish_eq (h : Consistent r) {id : String}
    {state : TransactionState} (hstate : state ≠ .active)
    (hopen : r.isOpen id = true) :
    r.finish id state
      = r.each (Transaction.endIf (fun t => t.id == id) state) := by
  have hmap : (r.records.map fun t => if t.id == id then t.finish state else t)
      = r.records.map (Transaction.endIf (fun t => t.id == id) state) := by
    refine List.map_congr_left fun t ht => ?_
    unfold Transaction.endIf
    by_cases hid : t.id = id
    · have hactive : t.state = .active :=
        (h.isOpen_iff_active (h.record?_of_mem ht)).mp
          (by rw [hid]; exact hopen)
      rw [if_pos (by simpa using hid), if_pos ⟨hactive, by simpa using hid⟩]
    · rw [if_neg (by simpa using hid), if_neg fun hboth =>
        hid (by simpa using hboth.2)]
  have hopenIds : r.openIds.filter (· != id)
      = activeIds (r.records.map
        (Transaction.endIf (fun t => t.id == id) state)) := by
    rw [h.openIds]
    unfold activeIds
    rw [List.filter_map, List.filter_filter, List.filter_map, List.map_map]
    -- an ended record is not active, every other one is as active as it was
    have hkeep : ∀ t : Transaction π,
        (((· != id) ∘ (·.id)) t && decide (t.state = .active))
          = ((fun t => decide (t.state = .active))
              ∘ Transaction.endIf (fun t => t.id == id) state) t := by
      intro t
      show ((t.id != id) && decide (t.state = .active))
        = decide ((Transaction.endIf (fun t => t.id == id) state t).state
          = .active)
      unfold Transaction.endIf
      by_cases hid : t.id = id
      · by_cases hactive : t.state = .active
        · rw [if_pos ⟨hactive, by simpa using hid⟩]
          simp [hid, Transaction.finish, hstate]
        · simp [hactive]
      · rw [if_neg fun hboth => hid (by simpa using hboth.2)]
        simp [hid]
    rw [List.filter_congr fun t _ => hkeep t]
    refine List.map_congr_left fun t _ => ?_
    exact ((lawful_endIf _ hstate).id t).symm
  unfold finish update Transactions.each
  rw [hmap, hopenIds]

/-- To end what is not open under an id is to end nothing. -/
private theorem Consistent.endIf_of_closed (h : Consistent r) {id : String}
    (state : TransactionState) (p : Transaction π → Bool)
    (hclosed : r.isOpen id = false) :
    r.each (Transaction.endIf (fun t => t.id == id && p t) state) = r := by
  refine each_eq_self h fun t ht => if_neg ?_
  rintro ⟨hactive, hp⟩
  have hid : t.id = id := by
    simp only [Bool.and_eq_true, beq_iff_eq] at hp
    exact hp.1
  have hopen := (h.isOpen_iff_active (h.record?_of_mem ht)).mpr hactive
  rw [hid, hclosed] at hopen
  cases hopen

/-- A rollback ends the transaction of an id, or nothing if none is open under
it. -/
private theorem Consistent.rollback_eq (h : Consistent r) (id : String) :
    r.rollback id
      = r.each (Transaction.endIf (fun t => t.id == id && true)
        .rolledBack) := by
  unfold rollback
  cases hopen : r.isOpen id with
  | true =>
      rw [if_pos rfl, h.finish_eq (by decide) hopen]
      simp only [Bool.and_true]
  | false =>
      rw [if_neg (by decide), h.endIf_of_closed _ _ hopen]

/-- One look at a due id ends the transaction under it. -/
private theorem Consistent.expireOne_eq (h : Consistent r) (now : Int)
    (id : String) : r.expireOne now id
      = r.each (Transaction.endIf (fun t => t.id == id && t.isDue now)
        .expired) := by
  unfold expireOne
  cases hopen : r.isOpen id with
  | false =>
      rw [find?_of_closed hopen]
      exact (h.endIf_of_closed _ _ hopen).symm
  | true =>
      obtain ⟨t, hfind, -⟩ := h.isOpen_iff.mp hopen
      rw [find?_of_open hopen, hfind]
      show (if t.isDue now then r.finish id .expired else r) = _
      -- whether a record of the id is due is whether this one is
      have hdue : r.each
          (Transaction.endIf (fun t' => t'.id == id && t'.isDue now) .expired)
            = r.each (Transaction.endIf (fun t' => t'.id == id && t.isDue now)
              .expired) := by
        refine each_congr fun t' ht' => ?_
        unfold Transaction.endIf
        by_cases hid : t'.id = id
        · have hsame : t' = t := by
            have hself := h.record?_of_mem ht'
            rw [hid, hfind] at hself
            exact (Option.some.inj hself).symm
          rw [hsame]
        · simp [hid]
      rw [hdue]
      cases t.isDue now with
      | true =>
          rw [if_pos rfl, h.finish_eq (by decide) hopen]
          simp only [Bool.and_true]
      | false =>
          rw [if_neg (by decide)]
          refine (each_eq_self h fun t' _ => if_neg ?_).symm
          rintro ⟨-, hp⟩
          simp only [Bool.and_false, Bool.false_eq_true] at hp

/-- To end transactions one id after the other is to end all that have one of
the ids. -/
private theorem Consistent.foldl_endIf {p : Transaction π → Bool}
    {state : TransactionState} (hstate : state ≠ .active)
    {f : Transactions π → String → Transactions π}
    (hf : ∀ {r : Transactions π} (id : String), Consistent r →
      f r id = r.each (Transaction.endIf (fun t => t.id == id && p t) state))
    (h : Consistent r) (ids : List String) :
    ids.foldl f r
        = r.each (Transaction.endIf (fun t => ids.contains t.id &&
          p t) state) := by
  induction ids generalizing r with
  | nil =>
      refine (each_eq_self h fun t _ => if_neg ?_).symm
      rintro ⟨-, hp⟩
      cases hp
  | cons id ids ih =>
      rw [List.foldl_cons, hf id h, ih (h.endIf _ hstate), each_each]
      refine each_congr fun t _ => ?_
      rw [Function.comp_apply, endIf_endIf _ _ hstate]
      congr 1
      funext t'
      rw [List.contains_cons, Bool.and_or_distrib_right]

/-- An id of an active record is open, so it need not be asked for. -/
private theorem Consistent.endIf_openIds (h : Consistent r)
    (p : Transaction π → Bool) (state : TransactionState) :
    r.each (Transaction.endIf (fun t => r.openIds.contains t.id && p t) state)
      = r.each (Transaction.endIf p state) := by
  refine each_congr fun t ht => ?_
  unfold Transaction.endIf
  by_cases hactive : t.state = .active
  · have hopen : r.openIds.contains t.id = true :=
      (h.isOpen_iff_active (h.record?_of_mem ht)).mpr hactive
    simp only [hopen, Bool.true_and]
  · rw [if_neg fun hboth => hactive hboth.1, if_neg fun hboth =>
      hactive hboth.1]

/-- To clear is to end everything that is open. -/
private theorem Consistent.clear_eq (h : Consistent r) :
    r.clear = r.each (Transaction.endIf (fun _ => true) .rolledBack) := by
  unfold clear
  rw [h.foldl_endIf (by decide) (fun id hr => hr.rollback_eq id),
    h.endIf_openIds]

/-- To look at every open id in turn is to settle all records at once. -/
theorem Consistent.expire_eq (h : Consistent r) (now : Int) :
    r.expire now = r.each (Transaction.settle now) := by
  unfold expire
  rw [h.foldl_endIf (by decide) (fun id hr => hr.expireOne_eq now id),
    h.endIf_openIds]
  rfl

/-- Work is put in place of what was there in the active record of an id. -/
private theorem Consistent.store_eq (h : Consistent r) {id : String}
    (work : Option π) (hopen : r.isOpen id = true) :
    r.store id work = .ok (r.each (Transaction.meet (.store id work))) := by
  unfold store
  rw [if_pos hopen]
  have hmap : (r.records.map fun t => if t.id == id then
      { t with pending := work } else t)
          = r.records.map (Transaction.meet (.store id work)) := by
    refine List.map_congr_left fun t ht => ?_
    unfold Transaction.meet TransactionEvent.ends TransactionEvent.stores
    by_cases hid : t.id = id
    · have hactive : t.state = .active :=
        (h.isOpen_iff_active (h.record?_of_mem ht)).mp
          (by rw [hid]; exact hopen)
      simp [hid, hactive]
    · simp [hid, Ne.symm hid]
  have hids : activeIds (r.records.map (Transaction.meet (.store id work)))
      = activeIds r.records := by
    rw [← hmap]
    unfold activeIds
    rw [List.filter_map, List.map_map]
    have hstate : ∀ t : Transaction π,
        ((fun t : Transaction π => decide (t.state = .active)) ∘ fun t =>
          if t.id == id then { t with pending := work } else t) t
          = decide (t.state = .active) := by
      intro t
      rw [Function.comp_apply]
      split <;> rfl
    rw [List.filter_congr fun t _ => hstate t]
    refine List.map_congr_left fun t _ => ?_
    rw [Function.comp_apply]
    split <;> rfl
  unfold update Transactions.each
  rw [hmap, hids, ← h.openIds]

/-- A transaction that has just begun is active, and its id is new. -/
theorem Consistent.begin (h : Consistent r) (now : Int) (own : Value) :
    Consistent (r.begin now own).2 := by
  have haccounted := accounted_begin h.accounted now own
  unfold Transactions.begin at haccounted ⊢
  simp only at haccounted ⊢
  split at haccounted
  · exact ⟨haccounted, h.distinct, h.openIds, h.armed⟩
  · refine ⟨haccounted, ?_, ?_, ?_⟩
    · rw [List.map_append, List.map_singleton, List.nodup_append]
      refine ⟨h.distinct, List.nodup_singleton _, ?_⟩
      intro id hid id' hid' heq
      obtain ⟨t, ht, rfl⟩ := List.mem_map.mp hid
      rw [List.mem_singleton.mp hid'] at heq
      exact not_isIssued_next _ (heq ▸ h.accounted.records t ht)
    · show r.openIds ++ _ = activeIds (r.records ++ _)
      rw [h.openIds]
      unfold activeIds
      rw [List.filter_append, List.map_append]
      rfl
    · intro t ht
      rcases List.mem_append.mp ht with ht | ht
      · exact h.armed t ht
      · rw [List.mem_singleton.mp ht]
        rfl

/-- The records there are stay when a transaction begins. -/
private theorem record?_begin_of_some {id : String} {t : Transaction π}
    (hfind : r.record? id = some t) (now : Int) (own : Value) :
    (r.begin now own).2.record? id = some t := by
  unfold Transactions.begin
  simp only
  split
  · exact hfind
  · show (r.records ++ _).find? _ = _
    rw [List.find?_append, show r.records.find? (fun t => t.id == id)
        = some t from hfind]
    rfl

/-- What has a record only since a transaction has begun is that
transaction. -/
theorem record?_begin_of_none {now : Int} {own : Value} {id : String}
    {t : Transaction π} (hnone : r.record? id = none)
    (hfind : (r.begin now own).2.record? id = some t) :
    t.pending = none ∧ t.state = .active := by
  unfold Transactions.begin at hfind
  simp only at hfind
  split at hfind
  · exact nomatch hnone.symm.trans hfind
  · change (r.records ++ _).find? _ = _ at hfind
    rw [List.find?_append, show r.records.find? (fun t => t.id == id)
      = none from hnone, Option.none_or] at hfind
    rw [List.mem_singleton.mp (List.mem_of_find?_eq_some hfind)]
    exact ⟨rfl, rfl⟩

/-- The transaction that begins has a new id, and under it the record of an
active one. -/
theorem Consistent.record?_begin (h : Consistent r) {now : Int} {own : Value}
    {id : String} (hok : (r.begin now own).1 = .ok id) :
    r.record? id = none ∧ ∃ timeout, r.timeoutOf own = .ok timeout
      ∧ (r.begin now own).2.record? id = some ⟨id, now, timeout, none,
        .active, true⟩ := by
  have hissued : ({ r with issued := r.issued + 1 } : Transactions π).timeoutOf
      own = r.timeoutOf own := rfl
  unfold Transactions.begin at hok ⊢
  simp only [hissued] at hok ⊢
  cases htimeout : r.timeoutOf own with
  | error e =>
      rw [htimeout] at hok
      cases hok
  | ok timeout =>
      rw [htimeout] at hok
      obtain rfl := Except.ok.inj hok
      have hnew : r.records.find? (fun t => t.id == idOf (r.issued + 1))
          = none := by
        refine List.find?_eq_none.mpr fun t ht heq => ?_
        exact not_isIssued_next _
          (beq_iff_eq.mp heq ▸ h.accounted.records t ht)
      refine ⟨hnew, timeout, rfl, ?_⟩
      show (r.records ++ _).find? _ = _
      rw [List.find?_append, hnew, Option.none_or, List.find?_cons]
      simp only [beq_self_eq_true]

end Transactions

-- ================================================================== one event

namespace Transaction

/-- An event that is about other ids leaves the record. -/
theorem meet_of_idle {e : TransactionEvent π} {t : Transaction π}
    (hends : e.ends t.id = none) (hstores : e.stores t.id = none) :
    meet e t = t := by
  unfold meet
  rw [hends, hstores]
  split <;> rfl

/-- A commit ends the record of its id. -/
theorem meet_commit (id : String) (failure : Option Failure) :
    meet (π := π) (.commit id failure)
      = endIf (fun t => t.id == id) .committed := by
  funext t
  unfold meet endIf TransactionEvent.ends TransactionEvent.stores
  by_cases hid : t.id = id
  · simp [hid]
  · simp [hid, Ne.symm hid]

/-- And so does a rollback, if it is there. -/
private theorem meet_rollback (id : String) :
    meet (π := π) (.rollback id)
      = endIf (fun t => t.id == id && true) .rolledBack := by
  funext t
  unfold meet endIf TransactionEvent.ends TransactionEvent.stores
  by_cases hid : t.id = id
  · simp [hid]
  · simp [hid, Ne.symm hid]

/-- To clear ends every record. -/
private theorem meet_clear :
    meet (π := π) .clear = endIf (fun _ => true) .rolledBack := by
  funext t
  unfold meet endIf TransactionEvent.ends
  simp

end Transaction

namespace TransactionRun

open Transactions Transaction

variable {r : TransactionRun π}

/-- The registry with the transaction that an event opens, if it opens one. -/
def opened (r : TransactionRun π) : TransactionEvent π → Transactions π
  | .begin own => (r.registry.begin r.now own).2
  | _ => r.registry

/-- A transaction that opens has an id of its own. -/
private theorem consistent_opened (h : r.registry.Consistent)
    (e : TransactionEvent π) :
    (r.opened e).Consistent := by
  unfold opened
  split
  · exact h.begin _ _
  · exact h

/-- An event that is about an id which is not open meets all records in
vain. -/
theorem meet_of_closed {reg : Transactions π} (h : reg.Consistent)
    {e : TransactionEvent π} {id : String} (hclosed : reg.isOpen id = false)
    (hother : ∀ id', id' ≠ id → e.ends id' = none ∧ e.stores id' = none)
    {t : Transaction π} (ht : t ∈ reg.records) : meet e t = t := by
  by_cases hid : t.id = id
  · refine meet_of_ended e fun hactive => ?_
    have hopen := (h.isOpen_iff_active (h.record?_of_mem ht)).mpr hactive
    rw [hid, hclosed] at hopen
    cases hopen
  · exact meet_of_idle (hother _ hid).1 (hother _ hid).2

/-- Before expiry is looked at, an event has opened what it opens, and has been
met by all records. -/
private theorem handle_eq (h : r.registry.Consistent)
    (e : TransactionEvent π) :
    (r.handle e).2.2 = ⟨r.now + e.elapsed, (r.opened e).each (meet e)⟩ := by
  have hnow : ∀ n : Int, n + 0 = n := Int.add_zero
  -- per event: what the registry does is what each record meets, and the other
  -- records are idle
  cases e with
  | begin own =>
      have hidle := each_eq_self (consistent_opened h (.begin own))
        (f := meet (.begin own)) fun t _ => meet_of_idle rfl rfl
      rw [hidle]
      show _ = TransactionRun.mk (r.now + 0) _
      rw [hnow]
      rfl
  | pending id =>
      have hidle := each_eq_self h (f := meet (.pending id)) fun t _ =>
        meet_of_idle rfl rfl
      show r = ⟨r.now + 0, r.registry.each (meet (.pending id))⟩
      rw [hidle, hnow]
  | contains id =>
      have hidle := each_eq_self h (f := meet (.contains id)) fun t _ =>
        meet_of_idle rfl rfl
      show r = ⟨r.now + 0, r.registry.each (meet (.contains id))⟩
      rw [hidle, hnow]
  | advance milliseconds =>
      have hidle :=
          each_eq_self h (f := meet (.advance milliseconds)) fun t _ =>
        meet_of_idle rfl rfl
      show _ = TransactionRun.mk _
        (r.registry.each (meet (.advance milliseconds)))
      rw [hidle]
      rfl
  | store id work =>
      show _ = TransactionRun.mk (r.now + 0)
        (r.registry.each (meet (.store id work)))
      rw [hnow]
      unfold handle
      cases hopen : r.registry.isOpen id with
      | true =>
          simp only [h.store_eq work hopen]
      | false =>
          have hrefuse : r.registry.store id work = .error (notFound id) := by
            unfold Transactions.store
            rw [hopen, if_neg (by decide)]
          have hidle : r.registry.each (meet (.store id work)) = r.registry :=
            each_eq_self h fun t ht =>
              meet_of_closed (e := .store id work) h hopen
                (fun id' hne => ⟨rfl, if_neg (Ne.symm hne)⟩) ht
          rw [hidle]
          simp only [hrefuse]
  | commit id failure =>
      show _ = TransactionRun.mk (r.now + 0)
        (r.registry.each (meet (.commit id failure)))
      rw [hnow, meet_commit]
      unfold handle Transactions.commit
      cases hopen : r.registry.isOpen id with
      | true =>
          obtain ⟨t, hfind, -⟩ := h.isOpen_iff.mp hopen
          rw [← h.finish_eq (by decide) hopen]
          simp only [find?_of_open hopen, hfind]
          cases t.pending with
          | none => rfl
          | some work => rfl
      | false =>
          have hidle : r.registry.each (meet (.commit id failure))
              = r.registry :=
            each_eq_self h fun t ht =>
              meet_of_closed (e := .commit id failure) h hopen
                (fun id' hne => ⟨if_neg (Ne.symm hne), rfl⟩) ht
          rw [← meet_commit id failure, hidle]
          simp only [find?_of_closed hopen]
  | rollback id =>
      show _ = TransactionRun.mk (r.now + 0)
        (r.registry.each (meet (.rollback id)))
      rw [hnow, meet_rollback, ← h.rollback_eq]
      rfl
  | clear =>
      show _ = TransactionRun.mk (r.now + 0) (r.registry.each (meet .clear))
      rw [hnow, meet_clear, ← h.clear_eq]
      rfl

/-- An event opens what it opens; then every transaction meets it and expires
if it is due. -/
theorem step_eq (h : r.registry.Consistent) (e : TransactionEvent π) :
    (r.step e).2.2
      = ⟨r.now + e.elapsed,
          (r.opened e).each (Transaction.settle (r.now + e.elapsed)
            ∘ meet e)⟩ := by
  have hmet : ((r.opened e).each (meet e)).Consistent :=
    (consistent_opened h e).each (lawful_meet e) fun _ _ => active_of_meet
  show (r.handle e).2.2.settle = _
  rw [handle_eq h]
  unfold TransactionRun.settle
  simp only [hmet.expire_eq, each_each]

/-- What one event does to one record, with the look that follows. -/
theorem lawful_step (now : Int) (e : TransactionEvent π) :
    Lawful (Transaction.settle now ∘ meet e) :=
  (lawful_meet e).comp (lawful_settle now)

/-- It makes nothing active. -/
private theorem active_of_step {now : Int} {e : TransactionEvent π}
    {t : Transaction π}
    (h : ((Transaction.settle now ∘ meet e) t).state = .active) :
    t.state = .active :=
  active_of_meet (active_of_endIf (by decide) h)

/-- One event keeps a registry consistent. -/
theorem consistent_step (h : r.registry.Consistent) (e : TransactionEvent π) :
    (r.step e).2.2.registry.Consistent := by
  rw [step_eq h]
  exact (consistent_opened h e).each (lawful_step _ e) fun _ _ =>
    active_of_step

/-- What has a record meets every event, and expires if it is due. -/
theorem record?_step (h : r.registry.Consistent) {id : String}
    {t : Transaction π} (hfind : r.registry.record? id = some t)
    (e : TransactionEvent π) :
    (r.step e).2.2.registry.record? id
      = some (Transaction.settle (r.now + e.elapsed) (meet e t)) := by
  have hopened : (r.opened e).record? id = some t := by
    unfold opened
    split
    · exact record?_begin_of_some hfind _ _
    · exact hfind
  rw [step_eq h]
  show ((r.opened e).each _).record? id = _
  rw [record?_each _ (lawful_step _ e), hopened]
  rfl

end TransactionRun

end GraphMapper

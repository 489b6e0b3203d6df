/-
The order of values, where there is one.

Numbers are ordered along the number line, texts by code point, octets by
value, dates and date-times by time, lists and tuples by their first items that
differ, sets by inclusion. Everything else has no order, and neither have
values of different kinds: asking for it has no answer, which is not the same
as a comparison that fails. A comparison with NaN does fail, whichever way it
is put; still, two lists that begin with one NaN do not differ there, since a
thing is the same as itself.
-/
import GraphMapper.Value.Equality

namespace GraphMapper

/-- The ways to ask for the order of two values. -/
inductive Relation where
  | less | atMost | greater | atLeast
  deriving DecidableEq, Repr

namespace Relation

/-- Whether the relation holds of two things in the given order. -/
def admits : Relation → Ordering → Bool
  | .less, o => o == .lt
  | .atMost, o => o != .gt
  | .greater, o => o == .gt
  | .atLeast, o => o != .lt

end Relation

/-- The order of two positions. -/
def Position.order (p q : Position) : Ordering :=
  if p.lt q then .lt else if p.beq q then .eq else .gt

/-- The order of two rows of natural numbers by the first that differ. -/
def orderRows : List Nat → List Nat → Ordering
  | [], [] => .eq
  | [], _ => .lt
  | _, [] => .gt
  | a :: as, b :: bs =>
      if a < b then .lt else if b < a then .gt else orderRows as bs

namespace Date

/-- The order of two dates by year, month and day. -/
def order (a b : Date) : Ordering :=
  orderRows [a.year, a.month, a.day] [b.year, b.month, b.day]

end Date

namespace DateTime

/-- The order of two date-times; there is none between one with and one without
an offset. -/
def order? (a b : DateTime) : Option Ordering :=
  (a.lt? b).map fun less => if less then .lt else if a.beq b then .eq else .gt

end DateTime

namespace Value

/-- The order of values that hold no other values. `some none` stands for a
comparison that fails whichever way it is put. -/
def orderAtoms? (a b : Value) : Option (Option Ordering) :=
  match a.position?, b.position? with
  | some p, some q =>
    match p, q with
    | some p, some q => some (some (p.order q))
    | _, _ => some none
  | _, _ =>
    match a.text?, b.text? with
    | some s, some t =>
        some (some (orderRows (s.toList.map Char.toNat)
          (t.toList.map Char.toNat)))
    | _, _ =>
      match a, b with
      | .bytes s, .bytes t =>
          some (some (orderRows (s.map UInt8.toNat) (t.map UInt8.toNat)))
      | .date s, .date t => some (some (s.order t))
      | .dateTime s, .dateTime t => (s.order? t).map some
      | _, _ => none

/-- Inclusion of sets. -/
def relatedSets (r : Relation) (as bs : List Value) : Bool :=
  match r with
  | .less => as.length < bs.length && sameMembers as bs
  | .atMost => sameMembers as bs
  | .greater => bs.length < as.length && sameMembers bs as
  | .atLeast => sameMembers bs as

mutual

/-- Whether the relation holds; `none` when the two values have no order. -/
def related? (r : Relation) : Value → Value → Option Bool
  | .list as, .list bs => relatedItems? r as bs
  | .tuple as, .tuple bs => relatedItems? r as bs
  | .set as, .set bs => some (relatedSets r as bs)
  | a, b => (orderAtoms? a b).map fun o => (o.map r.admits).getD false
termination_by structural a => a

/-- The first items that differ decide; without any the lengths do. -/
def relatedItems? (r : Relation) : List Value → List Value → Option Bool
  | [], [] => some (r.admits .eq)
  | [], _ :: _ => some (r.admits .lt)
  | _ :: _, [] => some (r.admits .gt)
  | a :: as, b :: bs =>
      if a.same b then relatedItems? r as bs else related? r a b
termination_by structural as => as

end

end Value

end GraphMapper

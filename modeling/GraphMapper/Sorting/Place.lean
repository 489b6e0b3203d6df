/-
Where something belongs in a sorted list, found with few questions.

A question about an item may have no answer, and the answers about different
items need not fit together, as when a key is a NaN. So what is looked at, and
in which order, is part of the result: a place is found by halving, or first by
strides that double and then by halving what is left.
-/
namespace GraphMapper.Sorting

variable {α : Type} {m : Type → Type} [Monad m]

/-- The direction in which a list is gone through; a list that is gone through
from its end is given in reverse. -/
inductive Way where
  | forward | backward
  deriving DecidableEq, Repr

/-- The middle one of `n` items, counted in the direction of the way. Of two
middle ones it is the one further to the right in the list. -/
def Way.middle : Way → Nat → Nat
  | .forward, n => n / 2
  | .backward, n => (n - 1) / 2

/-- How many items at the front `goes` holds of, found by halving: if it holds
of the middle one it is taken to hold of all in front of it. `fuel` bounds the
number of halvings, for which the length of the list is more than enough. -/
def place (w : Way) (goes : α → m Bool) : Nat → List α → m Nat
  | 0, _ => pure 0
  | fuel + 1, xs =>
    let half := w.middle xs.length
    match xs.drop half with
    | [] => pure 0
    | middle :: after => do
      if ← goes middle then pure (half + 1 + (← place w goes fuel after))
      else place w goes fuel (xs.take half)

/-- The last item that `goes` was found to hold of and the next one to be
looked at, in strides from the front that double until it does not hold or the
list is over. -/
def stride (goes : α → m Bool) (xs : List α) : Nat → Nat → Nat → m (Nat × Nat)
  | 0, last, next => pure (last, next)
  | fuel + 1, last, next =>
    match xs[next]? with
    | none => pure (last, next)
    | some x => do
      if ← goes x then stride goes xs fuel next (2 * next + 1)
      else pure (last, next)

/-- How many items at the front `goes` holds of, found by strides and then by
halving. -/
def gallop (w : Way) (goes : α → m Bool) (xs : List α) : m Nat := do
  match xs with
  | [] => pure 0
  | x :: _ =>
    if ← goes x then
      let (last, next) ← stride goes xs xs.length 0 1
      let between := (xs.take next).drop (last + 1)
      pure (last + 1 + (← place w goes (between.length + 1) between))
    else pure 0

end GraphMapper.Sorting

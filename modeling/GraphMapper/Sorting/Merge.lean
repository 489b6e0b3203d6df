/-
Merging two sorted runs into one.

A merge takes items one by one until one run has won several times in a row;
from then on it looks for the place where the other run wins again, as long as
that pays. It goes from the front or from the end, whichever leaves the shorter
run to be held apart.
-/
import GraphMapper.Sorting.Place

namespace GraphMapper.Sorting

variable {α : Type} {m : Type → Type} [Monad m]

/-- How many wins in a row make galloping worthwhile, to begin with. -/
def standardPatience : Nat := 7

/-- How two runs are merged: item by item, with the wins in a row of either
run, or by galloping; the first round of galloping does not yet make the merge
more eager to gallop. -/
inductive Pace where
  | walking (leftWins rightWins : Nat)
  | galloping (first : Bool)

/-- What is left of two runs comes out without another comparison: one run is
over, or the run that has the last word is down to one item. That is the left
run on the way forward, and else the right one. -/
def Way.settled (w : Way) (left right : List α) : Bool :=
  match w with
  | .forward => right.isEmpty || left.length ≤ 1
  | .backward => left.isEmpty || right.length ≤ 1

/-- The items of two settled runs. -/
def Way.remainder (w : Way) (left right : List α) : List α :=
  match w with
  | .forward => right ++ left
  | .backward => left ++ right

/-- Items in front of a merged list. -/
def emit (xs : List α) (merged : m (List α × Nat)) : m (List α × Nat) := do
  let (rest, patience) ← merged
  pure (xs ++ rest, patience)

/-- Goes on with two runs that are not settled. -/
def proceed (w : Way) (patience : Nat) (left right : List α)
    (goOn : α → List α → α → List α → m (List α × Nat)) : m (List α × Nat) :=
  match left, right with
  | x :: xs, y :: ys =>
    if w.settled left right then pure (w.remainder left right, patience)
    else goOn x xs y ys
  | _, _ => pure (w.remainder left right, patience)

/-- Merges two runs that are gone through in one direction. `rightFirst y x`
tells that the item `y` of the right run comes out before the item `x` of the
left one. `patience` is the number of wins in a row that starts a gallop; it
shrinks while galloping pays and grows when it no longer does. A round of
galloping takes the items of the left run that come out now, one of the right
run, the items of the right run that come out then, and one of the left run.
Every round takes an item, so their number is enough `fuel`. -/
def weave (w : Way) (rightFirst : α → α → m Bool) :
    Nat → Pace → Nat → List α → List α → m (List α × Nat)
  | 0, _, patience, left, right => pure (w.remainder left right, patience)
  | fuel + 1, pace, patience, left, right =>
    proceed w patience left right fun x xs y ys =>
      match pace with
      | .walking leftWins rightWins => do
        if ← rightFirst y x then
          let pace := if patience ≤ rightWins + 1 then .galloping true
            else .walking 0 (rightWins + 1)
          emit [y] (weave w rightFirst fuel pace patience left ys)
        else
          let pace := if patience ≤ leftWins + 1 then .galloping true
            else .walking (leftWins + 1) 0
          emit [x] (weave w rightFirst fuel pace patience xs right)
      | .galloping first => do
        let patience := if first || patience ≤ 1 then patience
          else patience - 1
        let n ← gallop w (fun x => do pure (!(← rightFirst y x))) left
        emit (left.take n) <|
            proceed w patience (left.drop n) right fun x xs y ys =>
          emit [y] <| proceed w patience (x :: xs) ys fun x xs _ _ => do
            let k ← gallop w (fun y => rightFirst y x) ys
            emit (ys.take k) <|
                proceed w patience (x :: xs) (ys.drop k) fun x xs _ _ =>
              emit [x] <| proceed w patience xs (ys.drop k) fun _ _ _ _ =>
                if standardPatience ≤ n || standardPatience ≤ k then
                  weave w rightFirst fuel (.galloping false) patience
                    xs (ys.drop k)
                else weave w rightFirst fuel (.walking 0 0) (patience + 1)
                  xs (ys.drop k)

/-- Merges two neighbouring runs. What the left one begins with and the right
one ends with is in its place already; the shorter one of what is left decides
from which end the rest is merged. -/
def merge (less : α → α → m Bool) (patience : Nat) (left right : List α) :
    m (List α × Nat) := do
  match right with
  | [] => pure (left, patience)
  | y :: _ =>
    let n ← gallop .forward (fun x => do pure (!(← less y x))) left
    let front := left.take n
    match (left.drop n).reverse with
    | [] => pure (front ++ right, patience)
    | last :: before =>
      let k ← gallop .backward (fun y => do pure (!(← less y last)))
        right.reverse
      let inner := right.take (right.length - k)
      let back := right.drop (right.length - k)
      let fuel := left.length + right.length
      match inner with
      | [] => pure (left ++ right, patience)
      | y :: ys =>
        if before.length < inner.length then
          let (merged, patience) ← weave .forward less fuel (.walking 0 0)
            patience (left.drop n) ys
          pure (front ++ y :: merged ++ back, patience)
        else
          let (merged, patience) ← weave .backward
            (fun y x => do pure (!(← less y x))) fuel (.walking 0 0) patience
              before inner.reverse
          pure (front ++ (last :: merged).reverse ++ back, patience)

end GraphMapper.Sorting

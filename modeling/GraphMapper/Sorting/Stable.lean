/-
A stable sort for keys whose comparison may have no answer.

The list is cut into runs from left to right: the longest run at the front that
is in order, or strictly in the opposite one and then reversed; a short one is
made longer by inserting the items behind it. Runs wait on a stack, and
neighbours are merged when the boundary between them is deeper in a balanced
tree over the whole list than the next boundary is, so that runs of similar
length meet.

With keys that are totally ordered the result is the only stable one, however
the work is divided. What the procedure decides is the outcome for keys such as
NaN, and whether two keys without an order are ever compared.
-/
import GraphMapper.Sorting.Merge

namespace GraphMapper.Sorting

variable {α : Type} {m : Type → Type} [Monad m]

-- ================================================================== runs

/-- The rest of a run behind `last`, and what follows it; `goesOn last x` tells
whether `x` belongs to the run. -/
def runFrom (goesOn : α → α → m Bool) (last : α) : List α → m (List α × List α)
  | [] => pure ([], [])
  | x :: xs => do
    if ← goesOn last x then
      let (run, rest) ← runFrom goesOn x xs
      pure (x :: run, rest)
    else pure ([], x :: xs)

/-- The run at the front, in order, and what follows it. -/
def frontRun (less : α → α → m Bool) : List α → m (List α × List α)
  | [] => pure ([], [])
  | [x] => pure ([x], [])
  | x :: y :: rest => do
    if ← less y x then
      let (run, rest) ← runFrom (fun a b => less b a) y rest
      pure ((x :: y :: run).reverse, rest)
    else
      let (run, rest) ← runFrom (fun a b => do pure (!(← less b a))) y rest
      pure (x :: y :: run, rest)

/-- Puts every item into a sorted list behind all that are not greater. -/
def insertAll (less : α → α → m Bool) (sorted : List α) : List α → m (List α)
  | [] => pure sorted
  | x :: xs => do
    let n ← place .forward (fun y => do pure (!(← less x y)))
      (sorted.length + 1) sorted
    insertAll less (sorted.take n ++ x :: sorted.drop n) xs

/-- The least length of a run in a list of `n` items: between 32 and 64, so
that the number of runs is a power of two or a little less. -/
def leastRun (n : Nat) : Nat := go n n 0
where
  go : Nat → Nat → Nat → Nat
    | 0, n, odd => n + odd
    | fuel + 1, n, odd =>
        if n < 64 then n + odd else go fuel (n / 2) (max odd (n % 2))

/-- The run at the front, made as long as the least run if it is shorter, and
what follows it. -/
def longRun (less : α → α → m Bool) (least : Nat) (xs : List α) :
    m (List α × List α) := do
  let (run, rest) ← frontRun less xs
  let missing := least - run.length
  pure (← insertAll less run (rest.take missing), rest.drop missing)

-- =============================================================== the stack

/-- The depth in a balanced tree over `n` items of the boundary between two
neighbouring runs: the first binary place at which the middles of the runs, as
parts of the list, differ. `a` and `b` are twice the middles. -/
def depth (n : Nat) : Nat → Nat → Nat → Nat
  | 0, _, _ => 1
  | fuel + 1, a, b =>
    if n ≤ a then 1 + depth n fuel (2 * (a - n)) (2 * (b - n))
    else if n ≤ b then 1
    else 1 + depth n fuel (2 * a) (2 * b)

/-- A run that waits on the stack, with the depth of the boundary behind it. -/
structure Waiting (α : Type) where
  items : List α
  depth : Nat

/-- Merges the run on top with those below while their boundary is deeper than
the next one. -/
def collapse (less : α → α → m Bool) (next : Nat) (top : List α) :
    List (Waiting α) → Nat → m (List α × List (Waiting α) × Nat)
  | [], patience => pure (top, [], patience)
  | below :: rest, patience => do
    if next < below.depth then
      let (merged, patience) ← merge less patience below.items top
      collapse less next merged rest patience
    else pure (top, below :: rest, patience)

/-- Merges all that waits: the two runs on top, or the two below the top if the
lowest of the three is shorter than it. -/
def mergeAll (less : α → α → m Bool) :
    Nat → List α → List (Waiting α) → Nat → m (List α)
  | _, top, [], _ => pure top
  | 0, top, _, _ => pure top
  | fuel + 1, top, below :: rest, patience =>
    match rest with
    | third :: others => do
      if third.items.length < top.length then
        let (merged, patience) ← merge less patience third.items below.items
        mergeAll less fuel top (⟨merged, third.depth⟩ :: others) patience
      else
        let (merged, patience) ← merge less patience below.items top
        mergeAll less fuel merged rest patience
    | [] => do
      let (merged, patience) ← merge less patience below.items top
      mergeAll less fuel merged rest patience

/-- Cuts what is left into runs behind the run on top, merging on the way.
Every run has an item at least, so the length of the list bounds their
number. -/
def sortRuns (less : α → α → m Bool) (size : Nat) :
    Nat → List α → List (Waiting α) → Nat → List α → m (List α)
  | fuel + 1, top, stack, patience, rest@(_ :: _) => do
    let (run, rest) ← longRun less (leastRun size) rest
    let start := (stack.map fun r => r.items.length).sum
    let twice := 2 * start + top.length
    let next := depth size size twice (twice + top.length + run.length)
    let (top, stack, patience) ← collapse less next top stack patience
    sortRuns less size fuel run (⟨top, next⟩ :: stack) patience rest
  | _, top, stack, patience, _ => mergeAll less stack.length top stack patience

/-- The items in order. -/
def sort (less : α → α → m Bool) (xs : List α) : m (List α) := do
  let (run, rest) ← longRun less (leastRun xs.length) xs
  sortRuns less xs.length xs.length run [] standardPatience rest

end GraphMapper.Sorting

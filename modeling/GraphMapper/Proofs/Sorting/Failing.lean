/-
A sort fails only as its comparisons do.

Whatever is done with the items besides, every step of the procedure either
asks for a comparison or succeeds. So a sort whose comparisons fail in expected
ways only fails in such a way itself.

# The shape of the proofs

The lemmas follow the procedure from its inner parts outwards, each by the
recursion of its part. They say the same of each: a failure has come out of a
comparison. So with `E` for what comparisons may fail with, the sort is told to
fail with nothing else, whether `E` stands for the failures that tell of a
rejection or for those of values that have no order.

Main statement: `failsOnly_sort`.

Chain: `Failure.Checked` for the calculus of `FailsOnly`, `Sorting.Stable` for
the procedure; used by `Graph.Refusals`, where rows are sorted by values of
elements.
-/
import GraphMapper.Proofs.Failure.Checked
import GraphMapper.Sorting.Stable

namespace GraphMapper

namespace Sorting

variable {α : Type} {E : Failure → Prop} {less : α → α → Checked Bool}

-- ================================================================== places

/-- A comparison the other way round fails as the comparison. -/
private theorem failsOnly_not {r : Checked Bool} (h : FailsOnly E r) :
    FailsOnly E (do pure (!(← r)) : Checked Bool) :=
      h.bind fun _ => failsOnly_ok _

/-- To look for a place compares, item by item. -/
private theorem failsOnly_place (w : Way) {goes : α → Checked Bool}
    (h : ∀ x, FailsOnly E (goes x)) (fuel : Nat) (xs : List α) :
    FailsOnly E (place w goes fuel xs) := by
  induction fuel generalizing xs with
  | zero => exact failsOnly_ok _
  | succ fuel ih =>
      unfold place
      simp only
      split
      · exact failsOnly_ok _
      · refine (h _).bind fun found => ?_
        split
        · exact (ih _).bind fun _ => failsOnly_ok _
        · exact ih _

/-- To stride ahead does too. -/
private theorem failsOnly_stride {goes : α → Checked Bool}
    (h : ∀ x, FailsOnly E (goes x)) (xs : List α) (fuel last next : Nat) :
    FailsOnly E (stride goes xs fuel last next) := by
  induction fuel generalizing last next with
  | zero => exact failsOnly_ok _
  | succ fuel ih =>
      unfold stride
      split
      · exact failsOnly_ok _
      · refine (h _).bind fun found => ?_
        split
        · exact ih _ _
        · exact failsOnly_ok _

/-- A gallop is a stride and a search. -/
private theorem failsOnly_gallop (w : Way) {goes : α → Checked Bool}
    (h : ∀ x, FailsOnly E (goes x)) (xs : List α) :
    FailsOnly E (gallop w goes xs) := by
  unfold gallop
  split
  · exact failsOnly_ok _
  · refine (h _).bind fun found => ?_
    split
    · refine (failsOnly_stride h _ _ _ _).bind fun reached => ?_
      exact (failsOnly_place w h _ _).bind fun _ => failsOnly_ok _
    · exact failsOnly_ok _

-- ================================================================= merging

/-- What has been merged is put in front without comparing. -/
private theorem failsOnly_emit {merged : Checked (List α × Nat)}
    (h : FailsOnly E merged) (xs : List α) :
    FailsOnly E (emit xs merged) := h.bind fun _ => failsOnly_ok _

/-- Two rows go on, or one of them is at its end. -/
private theorem failsOnly_proceed (w : Way) (patience : Nat)
    (left right : List α)
    {goOn : α → List α → α → List α → Checked (List α × Nat)}
    (h : ∀ x xs y ys, FailsOnly E (goOn x xs y ys)) :
    FailsOnly E (proceed w patience left right goOn) := by
  unfold proceed
  split
  · split
    · exact failsOnly_ok _
    · exact h _ _ _ _
  · exact failsOnly_ok _

/-- To weave two rows compares their heads, or gallops. -/
private theorem failsOnly_weave (w : Way) {rightFirst : α → α → Checked Bool}
    (h : ∀ y x, FailsOnly E (rightFirst y x)) (fuel : Nat) (pace : Pace)
    (patience : Nat) (left right : List α) :
    FailsOnly E (weave w rightFirst fuel pace patience left right) := by
  induction fuel generalizing pace patience left right with
  | zero => exact failsOnly_ok _
  | succ fuel ih =>
      unfold weave
      refine failsOnly_proceed w _ _ _ fun x xs y ys => ?_
      cases pace with
      | walking leftWins rightWins =>
          refine (h y x).bind fun first => ?_
          split
          · exact failsOnly_emit (ih _ _ _ _) _
          · exact failsOnly_emit (ih _ _ _ _) _
      | galloping first =>
          refine (failsOnly_gallop w (fun x => failsOnly_not (h y x)) _).bind
            fun n => ?_
          refine failsOnly_emit
            (failsOnly_proceed w _ _ _ fun x xs y ys => ?_) _
          refine failsOnly_emit
            (failsOnly_proceed w _ _ _ fun x xs _ _ => ?_) _
          refine (failsOnly_gallop w (fun y => h y x) _).bind fun k => ?_
          refine failsOnly_emit
            (failsOnly_proceed w _ _ _ fun x xs _ _ => ?_) _
          refine failsOnly_emit (failsOnly_proceed w _ _ _ fun _ _ _ _ => ?_) _
          split
          · exact ih _ _ _ _
          · exact ih _ _ _ _

/-- To merge weaves what is out of place. -/
private theorem failsOnly_merge (h : ∀ x y, FailsOnly E (less x y))
    (patience : Nat)
    (left right : List α) : FailsOnly E (merge less patience left right) := by
  unfold merge
  split
  · exact failsOnly_ok _
  · refine (failsOnly_gallop _ (fun x => failsOnly_not (h _ x)) _).bind
      fun n => ?_
    simp only
    split
    · exact failsOnly_ok _
    · refine (failsOnly_gallop _ (fun y => failsOnly_not (h y _)) _).bind
        fun k => ?_
      split
      · exact failsOnly_ok _
      · split
        · exact (failsOnly_weave _ h _ _ _ _ _).bind fun _ => failsOnly_ok _
        · refine (failsOnly_weave _ (fun y x => failsOnly_not (h y x)) _ _ _ _
            _).bind fun _ => ?_
          exact failsOnly_ok _

-- ==================================================================== runs

/-- A run goes on as long as comparisons allow. -/
private theorem failsOnly_runFrom {goesOn : α → α → Checked Bool}
    (h : ∀ x y, FailsOnly E (goesOn x y)) (last : α) (xs : List α) :
    FailsOnly E (runFrom goesOn last xs) := by
  induction xs generalizing last with
  | nil => exact failsOnly_ok _
  | cons x xs ih =>
      refine (h last x).bind fun goes => ?_
      split
      · exact (ih x).bind fun _ => failsOnly_ok _
      · exact failsOnly_ok _

/-- The run at the front is one of two such. -/
private theorem failsOnly_frontRun (h : ∀ x y, FailsOnly E (less x y))
    (xs : List α) : FailsOnly E (frontRun less xs) := by
  unfold frontRun
  split
  · exact failsOnly_ok _
  · exact failsOnly_ok _
  · refine (h _ _).bind fun descends => ?_
    split
    · exact (failsOnly_runFrom (fun a b => h b a) _ _).bind fun _ =>
        failsOnly_ok _
    · refine (failsOnly_runFrom (fun a b => failsOnly_not (h b a)) _ _).bind
        fun _ => ?_
      exact failsOnly_ok _

/-- To insert looks for a place for each item. -/
private theorem failsOnly_insertAll (h : ∀ x y, FailsOnly E (less x y))
    (sorted xs : List α) :
    FailsOnly E (insertAll less sorted xs) := by
  induction xs generalizing sorted with
  | nil => exact failsOnly_ok _
  | cons x xs ih =>
      exact (failsOnly_place _ (fun y => failsOnly_not (h x y)) _ _).bind
        fun n => ih _

/-- A long run is the one at the front, or filled up. -/
private theorem failsOnly_longRun (h : ∀ x y, FailsOnly E (less x y))
    (least : Nat) (xs : List α) :
    FailsOnly E (longRun less least xs) :=
  (failsOnly_frontRun h xs).bind fun _ =>
    (failsOnly_insertAll h _ _).bind fun _ => failsOnly_ok _

-- =============================================================== the stack

/-- To collapse merges neighbours. -/
private theorem failsOnly_collapse (h : ∀ x y, FailsOnly E (less x y))
    (next : Nat) (top : List α) (stack : List (Waiting α)) (patience : Nat) :
    FailsOnly E (collapse less next top stack patience) := by
  induction stack generalizing top patience with
  | nil => exact failsOnly_ok _
  | cons below stack ih =>
      unfold collapse
      split
      · exact (failsOnly_merge h _ _ _).bind fun _ => ih _ _
      · exact failsOnly_ok _

/-- So do the last merges. -/
private theorem failsOnly_mergeAll (h : ∀ x y, FailsOnly E (less x y))
    (fuel : Nat) (top : List α) (stack : List (Waiting α)) (patience : Nat) :
    FailsOnly E (mergeAll less fuel top stack patience) := by
  induction fuel generalizing top stack patience with
  | zero => cases stack <;> exact failsOnly_ok _
  | succ fuel ih =>
      rcases stack with - | ⟨below, - | ⟨third, others⟩⟩
      · exact failsOnly_ok _
      · exact (failsOnly_merge h _ _ _).bind fun _ => ih _ _ _
      · unfold mergeAll
        simp only
        split
        · exact (failsOnly_merge h _ _ _).bind fun _ => ih _ _ _
        · exact (failsOnly_merge h _ _ _).bind fun _ => ih _ _ _

/-- To sort the runs takes them one by one, and collapses. -/
private theorem failsOnly_sortRuns (h : ∀ x y, FailsOnly E (less x y))
    (size fuel : Nat) (top : List α) (stack : List (Waiting α))
    (patience : Nat) (rest : List α) :
    FailsOnly E (sortRuns less size fuel top stack patience rest) := by
  induction fuel generalizing top stack patience rest with
  | zero => exact failsOnly_mergeAll h _ _ _ _
  | succ fuel ih =>
      cases rest with
      | nil => exact failsOnly_mergeAll h _ _ _ _
      | cons x rest =>
          refine (failsOnly_longRun h _ _).bind fun out => ?_
          exact (failsOnly_collapse h _ _ _ _).bind fun _ => ih _ _ _ _

/-- A sort fails only as its comparisons do. -/
theorem failsOnly_sort (h : ∀ x y, FailsOnly E (less x y)) (xs : List α) :
    FailsOnly E (sort less xs) :=
  (failsOnly_longRun h _ xs).bind fun _ => failsOnly_sortRuns h _ _ _ _ _ _

end Sorting

end GraphMapper

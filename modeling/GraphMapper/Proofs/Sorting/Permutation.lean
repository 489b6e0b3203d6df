/-
A sort loses nothing and adds nothing, whatever its comparisons say.

A comparison may fail, and then there is no result; but it may also give
answers that do not fit together, and even then the result has the items that
were given, each as often. Every part of the procedure moves items only: runs
are cut off and reversed, items are inserted, and merges take from either side
what the other has not taken (`weave_perm`).

# What is carried along

The procedure is proved part by part with the same two sets of items on both
sides: those that have been placed and those that have not. Only the fuel needs
a thought. It runs out for no list, since a run that is cut off takes at least
one item with it (`longRun_perm`).

Main statement: `sort_perm`.

Chain: `Sorting.Stable`; `Graph.Safety` takes from here that sorting brings in
no element that was not found.
-/
import GraphMapper.Proofs.Failure.Checked
import GraphMapper.Sorting.Stable

namespace GraphMapper

namespace Sorting

variable {α : Type} {left right xs : List α}

-- ================================================================= merging

/-- The result of a merge has the given items. -/
def Merges (items : List α) (r : Checked (List α × Nat)) : Prop :=
  Yields r fun out => out.1.Perm items

/-- What is left of two rows is what they are. -/
private theorem remainder_perm (w : Way) (left right : List α) :
    (w.remainder left right).Perm (left ++ right) := by
  cases w with
  | forward => exact List.perm_append_comm
  | backward => exact .refl _

/-- What has been merged is put in front. -/
theorem Merges.emit {items : List α} {merged : Checked (List α × Nat)}
    (h : Merges items merged) (xs : List α) :
    Merges (xs ++ items) (emit xs merged) :=
  Yields.bind h fun _ hout => yields_pure (hout.append_left xs)

/-- It does not matter in which order the items are listed. -/
theorem Merges.perm {items items' : List α} {r : Checked (List α × Nat)}
    (h : Merges items r) (hp : items.Perm items') : Merges items' r :=
      h.mono fun _ hout => hout.trans hp

/-- Two settled runs are all that is left; others have an item in front. -/
private theorem merges_proceed (w : Way) (patience : Nat)
    {goOn : α → List α → α → List α → Checked (List α × Nat)}
    (h : ∀ x xs y ys, left = x :: xs → right = y :: ys →
      Merges (left ++ right) (goOn x xs y ys)) :
    Merges (left ++ right) (proceed w patience left right goOn) := by
  unfold proceed
  split
  · next x xs y ys =>
    split
    · exact yields_pure (remainder_perm w _ _)
    · exact h x xs y ys rfl rfl
  · exact yields_pure (remainder_perm w left right)

/-- Two rows that are woven lose nothing, whatever the pace. -/
theorem weave_perm (w : Way) (rightFirst : α → α → Checked Bool) (fuel : Nat)
    (pace : Pace) (patience : Nat) (left right : List α) :
    Merges (left ++ right)
      (weave w rightFirst fuel pace patience left right) := by
  induction fuel generalizing pace patience left right with
  | zero => exact yields_pure (remainder_perm w left right)
  | succ fuel ih =>
      unfold weave
      refine merges_proceed w patience fun x xs y ys hleft hright => ?_
      cases pace with
      | walking leftWins rightWins =>
          refine yields_bind fun first => ?_
          split
          · refine ((ih _ patience left ys).emit [y]).perm ?_
            rw [hright]
            show (y :: (left ++ ys)).Perm (left ++ y :: ys)
            exact List.perm_middle.symm
          · refine ((ih _ patience xs right).emit [x]).perm ?_
            rw [hleft]
            exact .refl _
      | galloping first =>
          refine yields_bind fun n => ?_
          have hcut : (left.take n ++ (left.drop n ++ right)).Perm
              (left ++ right) := by
            rw [← List.append_assoc, List.take_append_drop]
          refine (Merges.emit ?_ (left.take n)).perm hcut
          refine merges_proceed w _ fun x' xs' y' ys' hl hr => ?_
          -- one item of the right run, then a row of them, then one of the
          -- left run
          have hfirst : ([y'] ++ (x' :: xs' ++ ys')).Perm
              (left.drop n ++ right) := by
            rw [hl, hr]
            show (y' :: (x' :: xs' ++ ys')).Perm (x' :: xs' ++ y' :: ys')
            exact List.perm_middle.symm
          refine (Merges.emit ?_ [y']).perm hfirst
          refine merges_proceed w _ fun x₂ xs₂ y₂ ys₂ hl₂ hr₂ => ?_
          refine yields_bind fun k => ?_
          have hrow : (ys'.take k ++ (x₂ :: xs₂ ++ ys'.drop k)).Perm
              (x' :: xs' ++ ys') := by
            rw [hl₂, ← List.append_assoc]
            refine (List.perm_append_comm.append_right _).trans ?_
            rw [List.append_assoc, List.take_append_drop]
          refine (Merges.emit ?_ (ys'.take k)).perm hrow
          refine merges_proceed w _ fun x₃ xs₃ y₃ ys₃ hl₃ hr₃ => ?_
          rw [hl₃, List.cons_append]
          refine Merges.emit ?_ [x₃]
          refine merges_proceed w _ fun x₄ xs₄ y₄ ys₄ hl₄ hr₄ => ?_
          split
          · exact ih _ _ xs₃ (ys'.drop k)
          · exact ih _ _ xs₃ (ys'.drop k)

/-- So do two that are merged. -/
private theorem merge_perm (less : α → α → Checked Bool) (patience : Nat)
    (left right : List α) :
    Merges (left ++ right) (merge less patience left right) := by
  unfold merge
  cases right with
  | nil => exact yields_pure (by rw [List.append_nil])
  | cons y right =>
      refine yields_bind fun n => ?_
      split
      · next hnone =>
        have hall : left.take n = left := by
          have hdrop : left.drop n = [] := by simpa using hnone
          rw [← List.append_nil (left.take n), ← hdrop, List.take_append_drop]
        exact yields_pure (by rw [hall])
      · next last before hlast =>
        refine yields_bind fun k => ?_
        generalize (y :: right).length - k = cut
        -- what is in its place already, at either end, is left out of the
        -- merge
        have hends : ∀ {middle : List α},
            middle.Perm (left.drop n ++ (y :: right).take cut) →
            (left.take n ++ middle ++ (y :: right).drop cut).Perm
              (left ++ y :: right) := by
          intro middle hmiddle
          refine ((hmiddle.append_left _).append_right _).trans ?_
          rw [← List.append_assoc, List.take_append_drop, List.append_assoc,
            List.take_append_drop]
        simp only
        split
        · exact yields_pure (.refl _)
        · next y' ys hinner =>
          simp only [hinner] at hends
          split
          · refine (weave_perm _ _ _ _ _ _ _).bind fun out hout =>
              yields_pure ?_
            refine hends ?_
            exact (hout.cons y').trans List.perm_middle.symm
          · refine (weave_perm _ _ _ _ _ _ _).bind fun out hout =>
              yields_pure ?_
            refine hends ?_
            refine (List.reverse_perm _).trans ((hout.cons last).trans ?_)
            rw [← List.cons_append, ← hlast, ← hinner]
            exact (List.reverse_perm _).append (List.reverse_perm _)

-- ==================================================================== runs

/-- A run and what is behind it are the items. -/
theorem runFrom_append (goesOn : α → α → Checked Bool) (last : α)
    (xs : List α) :
    Yields (runFrom goesOn last xs) fun out => out.1 ++ out.2 = xs := by
  induction xs generalizing last with
  | nil => exact yields_pure rfl
  | cons x xs ih =>
      refine yields_bind fun goes => ?_
      split
      · exact (ih x).bind fun out hout =>
          yields_pure (by rw [List.cons_append, hout])
      · exact yields_pure rfl

/-- There is an item in the run at the front unless there is none at all. -/
private theorem frontRun_perm (less : α → α → Checked Bool) (xs : List α) :
    Yields (frontRun less xs) fun out =>
      (out.1 ++ out.2).Perm xs ∧ (xs ≠ [] → out.2.length < xs.length) := by
  unfold frontRun
  split
  · exact yields_pure ⟨.refl _, fun h => absurd rfl h⟩
  · exact yields_pure ⟨.refl _, fun _ => Nat.one_pos⟩
  · next x y rest =>
    have hlength : ∀ {run after : List α}, run ++ after = rest →
        after.length < (x :: y :: rest).length := by
      intro run after h
      simp only [← h, List.length_cons, List.length_append]
      omega
    refine yields_bind fun descends => ?_
    split
    · refine (runFrom_append _ y rest).bind fun out hout =>
        yields_pure ⟨?_, fun _ => hlength hout⟩
      rw [← hout]
      exact (List.reverse_perm _).append_right _
    · refine (runFrom_append _ y rest).bind fun out hout =>
        yields_pure ⟨?_, fun _ => hlength hout⟩
      rw [← hout]
      exact .refl _

/-- Items are put in among those that are sorted. -/
private theorem insertAll_perm (less : α → α → Checked Bool)
    (sorted xs : List α) :
    Yields (insertAll less sorted xs) fun out => out.Perm (sorted ++ xs) := by
  induction xs generalizing sorted with
  | nil => exact yields_pure (by rw [List.append_nil])
  | cons x xs ih =>
      refine yields_bind fun n => (ih _).mono fun out hout => hout.trans ?_
      rw [List.append_assoc, List.cons_append]
      have hcut : sorted ++ x :: xs
          = sorted.take n ++ (sorted.drop n ++ x :: xs) := by
        rw [← List.append_assoc, List.take_append_drop]
      rw [hcut]
      exact List.perm_middle.symm.append_left _

/-- A long run takes some of the items, one at least. -/
theorem longRun_perm (less : α → α → Checked Bool) (least : Nat)
    (xs : List α) :
    Yields (longRun less least xs) fun out =>
      (out.1 ++ out.2).Perm xs ∧ (xs ≠ [] → out.2.length < xs.length) := by
  refine (frontRun_perm less xs).bind fun out hout => ?_
  refine (insertAll_perm less _ _).bind fun run hrun =>
    yields_pure ⟨?_, fun hxs => ?_⟩
  · refine (hrun.append_right _).trans (List.Perm.trans ?_ hout.1)
    rw [List.append_assoc, List.take_append_drop]
  · have hfewer := hout.2 hxs
    simp only [List.length_drop]
    omega

-- =============================================================== the stack

/-- The items of the runs that wait on a stack. -/
def waiting (stack : List (Waiting α)) : List α := stack.flatMap (·.items)

/-- The items that wait are those of the runs. -/
private theorem waiting_cons (below : Waiting α) (stack : List (Waiting α)) :
    waiting (below :: stack) = below.items ++ waiting stack :=
      List.flatMap_cons

/-- The top run, merged with the run below it, goes on the rest of the
stack. -/
private theorem merged_perm {merged : List α × Nat} {top : List α}
    {below : Waiting α}
    (h : merged.1.Perm (below.items ++ top)) (stack : List (Waiting α)) :
    (merged.1 ++ waiting stack).Perm (top ++ waiting (below :: stack)) := by
  rw [waiting_cons, ← List.append_assoc]
  exact (h.trans List.perm_append_comm).append_right _

/-- Runs that are merged early lose nothing. -/
private theorem collapse_perm (less : α → α → Checked Bool) (next : Nat)
    (top : List α) (stack : List (Waiting α)) (patience : Nat) :
    Yields (collapse less next top stack patience) fun out =>
      (out.1 ++ waiting out.2.1).Perm (top ++ waiting stack) := by
  induction stack generalizing top patience with
  | nil => exact yields_pure (.refl _)
  | cons below stack ih =>
      unfold collapse
      split
      · refine (merge_perm less patience _ _).bind fun merged hmerged => ?_
        exact (ih _ _).mono fun out hout =>
          hout.trans (merged_perm hmerged stack)
      · exact yields_pure (.refl _)

/-- Nor do those that are merged in the end. -/
private theorem mergeAll_perm (less : α → α → Checked Bool) (fuel : Nat)
    (top : List α)
    (stack : List (Waiting α)) (patience : Nat) (hfuel : stack.length ≤ fuel) :
    Yields (mergeAll less fuel top stack patience) fun out =>
      out.Perm (top ++ waiting stack) := by
  -- on the fuel; a merge of neighbours only moves items
  induction fuel generalizing top stack patience with
  | zero =>
      cases stack with
      | nil => exact yields_pure (by simp [waiting])
      | cons below stack => simp at hfuel
  | succ fuel ih =>
      cases stack with
      | nil => exact yields_pure (by simp [waiting])
      | cons below rest =>
          cases rest with
          | nil =>
              refine (merge_perm less patience _ _).bind
                fun merged hmerged => ?_
              exact (ih _ _ _ (by simp)).mono fun out hout =>
                hout.trans (merged_perm hmerged _)
          | cons third others =>
              unfold mergeAll
              simp only
              split
              · refine (merge_perm less patience _ _).bind
                  fun merged hmerged => ?_
                refine (ih _ _ _ (by simpa using hfuel)).mono fun out hout =>
                  hout.trans ?_
                rw [waiting_cons, waiting_cons, waiting_cons,
                  ← List.append_assoc below.items]
                refine List.Perm.append_left top (List.Perm.append_right _ ?_)
                exact hmerged.trans List.perm_append_comm
              · refine (merge_perm less patience _ _).bind
                  fun merged hmerged => ?_
                exact (ih _ _ _ (by simpa using hfuel)).mono fun out hout =>
                  hout.trans (merged_perm hmerged _)

/-- Nor does the whole sort, for which there is always fuel. -/
private theorem sortRuns_perm (less : α → α → Checked Bool) (size fuel : Nat)
    (top : List α) (stack : List (Waiting α)) (patience : Nat) (rest : List α)
    (hfuel : rest.length ≤ fuel) :
    Yields (sortRuns less size fuel top stack patience rest) fun out =>
      out.Perm (top ++ waiting stack ++ rest) := by
  have hover : ∀ (top : List α) (stack : List (Waiting α)) (patience : Nat),
      Yields (mergeAll less stack.length top stack patience) fun out =>
        out.Perm (top ++ waiting stack ++ []) := by
    intro top stack patience
    rw [List.append_nil]
    exact mergeAll_perm less stack.length top stack patience (Nat.le_refl _)
  induction fuel generalizing top stack patience rest with
  | zero =>
      cases rest with
      | nil => exact hover top stack patience
      | cons x rest => simp at hfuel
  | succ fuel ih =>
      cases rest with
      | nil => exact hover top stack patience
      | cons x rest =>
          refine (longRun_perm less _ _).bind fun out hout => ?_
          refine (collapse_perm less _ top stack patience).bind
            fun merged hmerged => ?_
          have hleft : out.2.length ≤ fuel := by
            have hfewer := hout.2 (List.cons_ne_nil x rest)
            simp only [List.length_cons] at hfewer hfuel
            omega
          refine (ih _ _ _ _ hleft).mono fun sorted hsorted => hsorted.trans ?_
          rw [waiting_cons, List.append_assoc]
          refine (List.perm_append_comm_assoc _ _ _).trans ?_
          exact hmerged.append hout.1

/-- The result of a sort has the items that were given. -/
theorem sort_perm (less : α → α → Checked Bool) (xs : List α) :
    Yields (sort less xs) fun out => out.Perm xs := by
  refine (longRun_perm less _ xs).bind fun out hout => ?_
  have hlength : out.2.length ≤ xs.length := by
    have hall := hout.1.length_eq
    rw [List.length_append] at hall
    omega
  refine (sortRuns_perm less _ _ _ _ _ _ hlength).mono fun sorted hsorted =>
    hsorted.trans ?_
  rw [waiting, List.flatMap_nil, List.append_nil]
  exact hout.1

end Sorting

end GraphMapper

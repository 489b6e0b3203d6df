/-
A sort sees nothing of its items but the answers about them.

Items can be replaced by others that the same is said of, before a sort or
behind it. So whatever comes of a sort, be it a list or a failure, and however
little the answers fit together, rows of two kinds that are sorted by the same
values come out in the same order.

# One equation for each part

Each part of the sort gives the same when its items are replaced first and the
answers are asked of the replaced ones, or when it is run on the items and its
result is replaced. The proofs follow the recursion of the parts, and a failure
needs no case of its own: the results are compared as they are, failed or not.

Main statement: `sort_map`.

Chain: `Sorting.Stable` alone; used by `Query.Arranging`, where rows are sorted
that stand for elements.
-/
import GraphMapper.Proofs.Failure.Checked
import GraphMapper.Sorting.Stable

namespace GraphMapper.Sorting

variable {α β γ δ ε : Type} (f : α → β)

-- ================================================================== questions

/-- What follows a result that has been carried over. -/
theorem map_bind {r : Checked γ} {φ : γ → δ} {k : δ → Checked ε} :
    (r.map φ >>= k) = (r >>= fun c => k (φ c)) := by
  cases r <;> rfl

/-- What follows is carried over. -/
private theorem bind_eq_map {r : Checked γ} {k : γ → Checked δ}
    {k' : γ → Checked ε} {ψ : δ → ε} (h : ∀ c, k' c = (k c).map ψ) :
    (r >>= k') = (r >>= k).map ψ := by
  cases r with
  | error e => rfl
  | ok c => exact h c

/-- A place is found by the answers on the items alone. -/
private theorem place_map (w : Way) (goes : β → Checked Bool) (fuel : Nat)
    (xs : List α) :
    place w goes fuel (xs.map f) = place w (fun x => goes (f x)) fuel xs := by
  induction fuel generalizing xs with
  | zero => rfl
  | succ fuel ih =>
      unfold place
      simp only [List.length_map, ← List.map_drop, ← List.map_take]
      cases xs.drop (w.middle xs.length) with
      | nil => rfl
      | cons middle after => simp only [List.map_cons, ih]

/-- So is the reach of a stride. -/
private theorem stride_map (goes : β → Checked Bool) (xs : List α)
    (fuel last next : Nat) :
    stride goes (xs.map f) fuel last next = stride (fun x => goes (f x)) xs
      fuel last next := by
  induction fuel generalizing last next with
  | zero => rfl
  | succ fuel ih =>
      unfold stride
      rw [List.getElem?_map]
      cases xs[next]? with
      | none => rfl
      | some x => simp only [Option.map_some, ih]

/-- So is where a gallop ends. -/
private theorem gallop_map (w : Way) (goes : β → Checked Bool) (xs : List α) :
    gallop w goes (xs.map f) = gallop w (fun x => goes (f x)) xs := by
  cases xs with
  | nil => rfl
  | cons x xs =>
      unfold gallop
      simp only [List.map_cons]
      rw [← List.map_cons, stride_map, List.length_map]
      simp only [← List.map_take, ← List.map_drop, List.length_map, place_map]

-- ==================================================================== merging

/-- A merged list with its items replaced. -/
def carried (out : List α × Nat) : List β × Nat := (out.1.map f, out.2)

/-- What has been merged is put in front, before or after. -/
private theorem emit_map (xs : List α) (r : Checked (List α × Nat)) :
    emit (xs.map f) (r.map (carried f)) = (emit xs r).map (carried f) := by
  cases r with
  | error e => rfl
  | ok out =>
      show Except.ok _ = Except.ok _
      unfold carried
      rw [List.map_append]

/-- What is left of two rows is left of them. -/
private theorem remainder_map (w : Way) (left right : List α) :
    w.remainder (left.map f) (right.map f)
      = (w.remainder left right).map f := by
  cases w <;> exact List.map_append.symm

/-- That it is left is told by the rows alone. -/
private theorem settled_map (w : Way) (left right : List α) :
    w.settled (left.map f) (right.map f) = w.settled left right := by
  cases w <;> simp [Way.settled]

/-- What has been taken is carried over, if the rest is. -/
private theorem proceed_map (w : Way) (patience : Nat) (left right : List α)
    {goOn : α → List α → α → List α → Checked (List α × Nat)}
    {goOn' : β → List β → β → List β → Checked (List β × Nat)}
    (h : ∀ x xs y ys, goOn' (f x) (xs.map f) (f y) (ys.map f)
      = (goOn x xs y ys).map (carried f)) :
    proceed w patience (left.map f) (right.map f) goOn'
      = (proceed w patience left right goOn).map (carried f) := by
  have hover : (pure (w.remainder (left.map f) (right.map f), patience) :
      Checked (List β × Nat))
        = (pure (w.remainder left right, patience) :
          Checked (List α × Nat)).map (carried f) := by
    rw [remainder_map]
    rfl
  have hsettled := settled_map f w left right
  unfold proceed
  cases left with
  | nil => exact hover
  | cons x xs =>
      cases right with
      | nil => exact hover
      | cons y ys =>
          simp only [List.map_cons] at hover hsettled ⊢
          rw [hsettled]
          split
          · exact hover
          · exact h x xs y ys

/-- Two rows are woven by the answers alone, whatever the pace. -/
private theorem weave_map (w : Way) (rightFirst : β → β → Checked Bool)
    (fuel : Nat) (pace : Pace) (patience : Nat) (left right : List α) :
    weave w rightFirst fuel pace patience (left.map f) (right.map f)
      = (weave w (fun y x => rightFirst (f y) (f x)) fuel pace patience left
        right).map
          (carried f) := by
  -- on the fuel; each comparison sees the images, and each piece taken is the
  -- image of a piece
  induction fuel generalizing pace patience left right with
  | zero =>
      show Except.ok _ = Except.ok _
      rw [remainder_map]
      rfl
  | succ fuel ih =>
      unfold weave
      refine proceed_map f w patience left right fun x xs y ys => ?_
      cases pace with
      | walking leftWins rightWins =>
          refine bind_eq_map fun first => ?_
          cases first with
          | true =>
              exact (congrArg (emit [f y]) (ih _ _ _ _)).trans
                (emit_map f [y] _)
          | false =>
              exact (congrArg (emit [f x]) (ih _ _ _ _)).trans
                (emit_map f [x] _)
      | galloping first =>
          simp only [gallop_map]
          refine bind_eq_map fun n => ?_
          rw [← List.map_take, ← List.map_drop, ← emit_map]
          refine congrArg (emit _)
            (proceed_map f w _ _ _ fun x' xs' y' ys' => ?_)
          refine Eq.trans (congrArg (emit [f y']) ?_) (emit_map f [y'] _)
          refine proceed_map f w _ (x' :: xs') ys' fun x₂ xs₂ _ _ => ?_
          simp only [gallop_map]
          refine bind_eq_map fun k => ?_
          rw [← List.map_take, ← List.map_drop, ← emit_map]
          refine congrArg (emit _)
            (proceed_map f w _ (x₂ :: xs₂) _ fun x₃ xs₃ _ _ => ?_)
          refine Eq.trans (congrArg (emit [f x₃]) ?_) (emit_map f [x₃] _)
          refine proceed_map f w _ xs₃ _ fun _ _ _ _ => ?_
          split
          · exact ih _ _ _ _
          · exact ih _ _ _ _

/-- So they are merged. -/
private theorem merge_map (less : β → β → Checked Bool) (patience : Nat)
    (left right : List α) :
    merge less patience (left.map f) (right.map f)
      = (merge (fun x y => less (f x) (f y)) patience left right).map
        (carried f) := by
  unfold merge
  -- both cuts fall at the same places, since the comparisons agree
  cases right with
  | nil => rfl
  | cons y right =>
      simp only [List.map_cons, gallop_map]
      refine bind_eq_map fun n => ?_
      rw [← List.map_take, ← List.map_drop, ← List.map_reverse]
      cases (left.drop n).reverse with
      | nil =>
          show Except.ok _ = Except.ok _
          unfold carried
          rw [List.map_append, List.map_cons]
      | cons last before =>
          simp only [List.map_cons]
          rw [← List.map_cons, ← List.map_reverse, gallop_map]
          refine bind_eq_map fun k => ?_
          simp only [← List.map_take, ← List.map_drop, List.length_map]
          cases (y :: right).take ((y :: right).length - k) with
          | nil =>
              show Except.ok _ = Except.ok _
              unfold carried
              rw [List.map_append]
          | cons y' ys =>
              simp only [List.map_cons, List.length_cons]
              split
              · rw [weave_map, map_bind]
                refine bind_eq_map fun out => ?_
                show Except.ok _ = Except.ok _
                simp [carried]
              · rw [← List.map_cons, ← List.map_reverse, weave_map, map_bind]
                refine bind_eq_map fun out => ?_
                show Except.ok _ = Except.ok _
                simp [carried]

-- ======================================================================= runs

/-- A list that has been cut in two with its items replaced. -/
def halves (out : List α × List α) : List β × List β :=
  (out.1.map f, out.2.map f)

/-- A run goes as far as the answers say. -/
private theorem runFrom_map (goesOn : β → β → Checked Bool) (last : α)
    (xs : List α) : runFrom goesOn (f last) (xs.map f)
      = (runFrom (fun a b => goesOn (f a) (f b)) last xs).map (halves f) := by
  induction xs generalizing last with
  | nil => rfl
  | cons x xs ih =>
      refine bind_eq_map fun goes => ?_
      cases goes with
      | true =>
          show (runFrom goesOn (f x) (xs.map f) >>= fun out =>
            pure (f x :: out.1, out.2))
                = Except.map _ (runFrom _ x xs >>= fun out =>
                  pure (x :: out.1, out.2))
          rw [ih, map_bind]
          exact bind_eq_map fun out => rfl
      | false => rfl

/-- So does the run at the front, which may have been turned round. -/
private theorem frontRun_map (less : β → β → Checked Bool) (xs : List α) :
    frontRun less (xs.map f)
      = (frontRun (fun x y => less (f x) (f y)) xs).map (halves f) := by
  match xs with
  | [] => rfl
  | [x] => rfl
  | x :: y :: rest =>
      refine bind_eq_map fun descends => ?_
      cases descends with
      | true =>
          show (runFrom (fun a b => less b a) (f y) (rest.map f) >>= fun out =>
              pure ((f x :: f y :: out.1).reverse, out.2))
            = Except.map _ (runFrom _ y rest >>= fun out =>
              pure ((x :: y :: out.1).reverse, out.2))
          rw [runFrom_map, map_bind]
          refine bind_eq_map fun out => ?_
          show Except.ok _ = Except.ok _
          simp [halves]
      | false =>
          show (runFrom (fun a b => do pure (!(← less b a))) (f y) (rest.map f)
              >>= fun out =>
              pure (f x :: f y :: out.1, out.2))
            = Except.map _ (runFrom _ y rest >>= fun out =>
              pure (x :: y :: out.1, out.2))
          rw [runFrom_map, map_bind]
          exact bind_eq_map fun out => rfl

/-- Items are inserted where the answers say. -/
private theorem insertAll_map (less : β → β → Checked Bool)
    (sorted xs : List α) : insertAll less (sorted.map f) (xs.map f)
      = (insertAll (fun x y => less (f x) (f y)) sorted xs).map
        (List.map f) := by
  induction xs generalizing sorted with
  | nil => rfl
  | cons x xs ih =>
      show (place .forward _ ((sorted.map f).length + 1) (sorted.map f)
        >>= fun n => _)
          = Except.map _ (place .forward _ (sorted.length + 1) sorted
            >>= fun n => _)
      rw [place_map, List.length_map]
      refine bind_eq_map fun n => ?_
      rw [← ih]
      simp

/-- A run that is filled up to a least length is the same one. -/
private theorem longRun_map (less : β → β → Checked Bool) (least : Nat)
    (xs : List α) : longRun less least (xs.map f)
      = (longRun (fun x y => less (f x) (f y)) least xs).map (halves f) := by
  unfold longRun
  rw [frontRun_map, map_bind]
  refine bind_eq_map fun out => ?_
  show (insertAll less (out.1.map f)
      ((out.2.map f).take (least - (out.1.map f).length)) >>= fun run =>
      pure (run, (out.2.map f).drop (least - (out.1.map f).length)))
    = Except.map _ (insertAll _ out.1 (out.2.take (least - out.1.length))
        >>= fun run =>
        pure (run, out.2.drop (least - out.1.length)))
  rw [List.length_map, ← List.map_take, ← List.map_drop,
    insertAll_map, map_bind]
  exact bind_eq_map fun run => rfl

-- ================================================================== the stack

/-- A waiting run with its items replaced. -/
def Waiting.map (w : Waiting α) : Waiting β := ⟨w.items.map f, w.depth⟩

/-- Runs that wait are merged as their lengths say, and those stay. -/
private theorem collapse_map (less : β → β → Checked Bool) (next : Nat)
    (top : List α) (stack : List (Waiting α)) (patience : Nat) :
    collapse less next (top.map f) (stack.map (Waiting.map f)) patience
      = (collapse (fun x y => less (f x) (f y)) next top stack patience).map
        fun out =>
          (out.1.map f, out.2.1.map (Waiting.map f), out.2.2) := by
  induction stack generalizing top patience with
  | nil => rfl
  | cons below stack ih =>
      unfold collapse
      simp only [List.map_cons]
      rw [show (Waiting.map f below).depth = below.depth from rfl]
      split
      · rw [show (Waiting.map f below).items = below.items.map f from rfl,
          merge_map, map_bind]
        exact bind_eq_map fun out => ih out.1 out.2
      · rfl

/-- So they are in the end. -/
private theorem mergeAll_map (less : β → β → Checked Bool) (fuel : Nat)
    (top : List α) (stack : List (Waiting α)) (patience : Nat) :
    mergeAll less fuel (top.map f) (stack.map (Waiting.map f)) patience
      = (mergeAll (fun x y => less (f x) (f y)) fuel top stack patience).map
        (List.map f) := by
  induction fuel generalizing top stack patience with
  | zero => cases stack <;> rfl
  | succ fuel ih =>
      cases stack with
      | nil => rfl
      | cons below rest =>
          have htop : (merge less patience (Waiting.map f below).items
              (top.map f) >>= fun out =>
                mergeAll less fuel out.1 (rest.map (Waiting.map f)) out.2)
              = (merge (fun x y => less (f x) (f y)) patience below.items top
                  >>= fun out =>
                  mergeAll (fun x y => less (f x) (f y)) fuel out.1 rest
                    out.2).map (List.map f) := by
            rw [show (Waiting.map f below).items = below.items.map f from rfl,
              merge_map, map_bind]
            exact bind_eq_map fun out => ih out.1 rest out.2
          cases rest with
          | nil => exact htop
          | cons third others =>
              unfold mergeAll
              simp only [List.map_cons] at htop ⊢
              rw [show (Waiting.map f third).items
                = third.items.map f from rfl, List.length_map, List.length_map]
              split
              · rw [show (Waiting.map f below).items
                  = below.items.map f from rfl, merge_map, map_bind]
                exact bind_eq_map fun out =>
                  ih top (⟨out.1, third.depth⟩ :: others) out.2
              · exact htop

/-- So the whole sort goes the same way. -/
private theorem sortRuns_map (less : β → β → Checked Bool) (size fuel : Nat)
    (top : List α) (stack : List (Waiting α)) (patience : Nat)
    (rest : List α) :
    sortRuns less size fuel (top.map f) (stack.map (Waiting.map f)) patience
      (rest.map f)
        = (sortRuns (fun x y => less (f x) (f y)) size fuel top stack patience
          rest).map
          (List.map f) := by
  -- when the items are used up the waiting runs are merged
  have hover : ∀ (top : List α) (stack : List (Waiting α)) (patience : Nat),
      mergeAll less (stack.map (Waiting.map f)).length (top.map f)
        (stack.map (Waiting.map f)) patience
        = (mergeAll (fun x y => less (f x) (f y)) stack.length top stack
          patience).map
            (List.map f) := by
    intro top stack patience
    rw [List.length_map]
    exact mergeAll_map f less _ top stack patience
  induction fuel generalizing top stack patience rest with
  | zero => cases rest <;> exact hover top stack patience
  | succ fuel ih =>
      cases rest with
      | nil => exact hover top stack patience
      | cons x rest =>
          have hstart : (stack.map (Waiting.map f)).map
              (fun r => r.items.length)
                = stack.map fun r => r.items.length := by
            rw [List.map_map]
            exact List.map_congr_left fun r _ => List.length_map f
          show (longRun less (leastRun size) ((x :: rest).map f) >>= fun out =>
              collapse less (depth size size _ _) (top.map f)
                (stack.map (Waiting.map f)) patience >>= fun merged =>
                  sortRuns less size fuel out.1 (⟨merged.1, _⟩ :: merged.2.1)
                    merged.2.2 out.2)
            = (longRun (fun x y => less (f x) (f y)) (leastRun size)
                (x :: rest) >>= fun out =>
                collapse (fun x y => less (f x) (f y)) (depth size size _ _)
                  top stack patience >>= fun merged =>
                    sortRuns (fun x y => less (f x) (f y)) size fuel out.1
                    (⟨merged.1, _⟩ :: merged.2.1) merged.2.2
                      out.2).map (List.map f)
          rw [longRun_map, map_bind]
          refine bind_eq_map fun out => ?_
          simp only [hstart, List.length_map, halves, collapse_map, map_bind]
          refine bind_eq_map fun merged => ?_
          exact ih out.1 (⟨merged.1, _⟩ :: merged.2.1) merged.2.2 out.2

/-- A sort of items that stand for others does with them what a sort of the
others does. -/
theorem sort_map (less : β → β → Checked Bool) (xs : List α) :
    sort less (xs.map f)
      = (sort (fun x y => less (f x) (f y)) xs).map (List.map f) := by
  unfold sort
  rw [List.length_map, longRun_map, map_bind]
  exact bind_eq_map fun out => sortRuns_map f less _ _ out.1 [] _ out.2

end GraphMapper.Sorting

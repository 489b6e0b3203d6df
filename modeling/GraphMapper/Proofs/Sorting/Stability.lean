/-
The sort is the stable one.

For keys that are totally ordered, which is to say that all comparisons go by a
rank, there is only one list of the items that is in order and has equals in
the order in which they were given (`eq_mergeSort`). Every part of the
procedure makes such a list out of the items it has taken: the run at the
front, also if it was in the opposite order, since that is strict
(`frontRun_eq`); a run with the items behind it put in (`insertAll_eq`); two
neighbours when they are merged (`merge_eq`). The stack holds the items that
have been taken in the order in which they were given (`Stacked`), whichever of
its runs are merged.

# Only one list

That a list is stable is usually said of positions. Here it is said of ranks:
the items of each rank stand in the order that they had (`ranked`). Two lists
in order that agree in this are equal, which leaves two things to show of each
part of the procedure, and no position is ever counted.

Main statement: `sort_eq`.

Chain: `Sorting.Stable` for the procedure and `Sorting.Merging` for the merge;
`Sorting.Lexicographic` has the ranks of rows.
-/
import GraphMapper.Proofs.Sorting.Merging
import GraphMapper.Sorting.Stable

namespace GraphMapper.Sorting

variable {α : Type} {rank : α → Nat} {less : α → α → Checked Bool}
  {xs ys : List α}

-- ============================================================ the stable list

/-- Not to be above is transitive. -/
theorem atMost_trans (rank : α → Nat) (a b c : α)
    (hab : atMost rank a b = true) (hbc : atMost rank b c = true) :
    atMost rank a c = true :=
  decide_eq_true (Nat.le_trans (of_decide_eq_true hab) (of_decide_eq_true hbc))

/-- One of two is not above the other. -/
theorem atMost_total (rank : α → Nat) (a b : α) :
    (atMost rank a b || atMost rank b a) = true := by
  rw [Bool.or_eq_true]
  exact (Nat.le_total (rank a) (rank b)).imp decide_eq_true decide_eq_true

/-- In order means that nobody stands behind one that is above. -/
private theorem sorted_iff :
    Sorted rank xs ↔ xs.Pairwise fun a b => atMost rank a b = true := by
  unfold Sorted atMost
  simp only [decide_eq_true_eq]

/-- The list in question is in order. -/
theorem sorted_mergeSort (rank : α → Nat) (xs : List α) :
    Sorted rank (xs.mergeSort (atMost rank)) :=
  sorted_iff.mpr
    (List.pairwise_mergeSort (atMost_trans rank) (atMost_total rank) xs)

/-- The items of one rank. -/
def ranked (rank : α → Nat) (n : Nat) (xs : List α) : List α :=
  xs.filter fun x => rank x == n

/-- The items of a rank in two lists are those in both. -/
private theorem ranked_append (rank : α → Nat) (n : Nat) (xs ys : List α) :
    ranked rank n (xs ++ ys) = ranked rank n xs ++ ranked rank n ys :=
      List.filter_append xs ys

/-- They have the rank. -/
private theorem rank_of_mem_ranked {n : Nat} {x : α}
    (h : x ∈ ranked rank n xs) : rank x = n :=
  beq_iff_eq.mp (List.mem_filter.mp h).2

/-- Each item is among those of its rank. -/
private theorem mem_ranked_self {x : α} (h : x ∈ xs) :
    x ∈ ranked rank (rank x) xs :=
  List.mem_filter.mpr ⟨h, beq_self_eq_true _⟩

/-- Sorting leaves items of one rank in their order. -/
private theorem ranked_mergeSort (rank : α → Nat) (n : Nat) (xs : List α) :
    ranked rank n (xs.mergeSort (atMost rank)) = ranked rank n xs := by
  have hpairwise : (ranked rank n xs).Pairwise fun a b => atMost rank a b
      = true := by
    refine List.pairwise_of_forall_mem_list fun a ha b hb => decide_eq_true ?_
    rw [rank_of_mem_ranked ha, rank_of_mem_ranked hb]
  have hself : (ranked rank n xs).filter (fun x => rank x == n)
      = ranked rank n xs :=
    List.filter_eq_self.mpr fun x hx => (List.mem_filter.mp hx).2
  have hsub :=
    (List.sublist_mergeSort (atMost_trans rank) (atMost_total rank) hpairwise
      List.filter_sublist).filter fun x => rank x == n
  rw [hself] at hsub
  have hperm := (List.mergeSort_perm xs (atMost rank)).filter fun x => rank x
      == n
  exact (hsub.eq_of_length hperm.length_eq.symm).symm

/-- An item in front is among those of its rank. -/
private theorem ranked_cons_of_eq {n : Nat} {x : α} (h : rank x = n)
    (xs : List α) : ranked rank n (x :: xs) = x :: ranked rank n xs :=
      List.filter_cons_of_pos (beq_iff_eq.mpr h)

/-- And not among those of another. -/
private theorem ranked_cons_of_ne {n : Nat} {x : α} (h : rank x ≠ n)
    (xs : List α) : ranked rank n (x :: xs) = ranked rank n xs :=
      List.filter_cons_of_neg fun hn => h (beq_iff_eq.mp hn)

/-- Lists with the same items of each rank have the same items. -/
private theorem subset_of_ranked
    (h : ∀ n, ranked rank n xs = ranked rank n ys) : xs ⊆ ys :=
  fun x hx => (List.mem_filter.mp (h (rank x) ▸ mem_ranked_self hx)).1

/-- What is in order begins with an item of the least rank. -/
private theorem Sorted.first_le {x y : α} (h : Sorted rank (x :: xs))
    (hy : y ∈ x :: xs) :
    rank x ≤ rank y := by
  rcases List.mem_cons.mp hy with rfl | hy
  · exact Nat.le_refl _
  · exact (List.pairwise_cons.mp h).1 y hy

/-- What is in order is told by the items of each rank. -/
private theorem eq_of_ranked (hxs : Sorted rank xs) (hys : Sorted rank ys)
    (h : ∀ n, ranked rank n xs = ranked rank n ys) : xs = ys := by
  induction xs generalizing ys with
  | nil =>
      cases ys with
      | nil => rfl
      | cons y ys =>
          exact absurd (subset_of_ranked (fun n => (h n).symm)
            List.mem_cons_self) List.not_mem_nil
  | cons x xs ih =>
      cases ys with
      | nil =>
          exact absurd (subset_of_ranked h List.mem_cons_self) List.not_mem_nil
      | cons y ys =>
          have hrank : rank y = rank x :=
            Nat.le_antisymm
              (hys.first_le (subset_of_ranked h List.mem_cons_self))
                (hxs.first_le
                  (subset_of_ranked (fun n => (h n).symm) List.mem_cons_self))
          have hfirst := h (rank x)
          rw [ranked_cons_of_eq rfl, ranked_cons_of_eq hrank] at hfirst
          obtain ⟨rfl, hrest⟩ := List.cons.inj hfirst
          rw [ih hxs.of_cons hys.of_cons fun n => ?_]
          by_cases hn : rank x = n
          · exact hn ▸ hrest
          · have hall := h n
            rwa [ranked_cons_of_ne hn, ranked_cons_of_ne hn] at hall

/-- There is one list of the items that is in order and has equals as they were
given. -/
theorem eq_mergeSort (hys : Sorted rank ys)
    (h : ∀ n, ranked rank n ys = ranked rank n xs) :
    ys = xs.mergeSort (atMost rank) :=
  eq_of_ranked hys (sorted_mergeSort rank xs) fun n =>
    (h n).trans (ranked_mergeSort rank n xs).symm

/-- A merge takes equals from the left run first. -/
private theorem ranked_merge (n : Nat) (hxs : Sorted rank xs) :
    ranked rank n (xs.merge ys (atMost rank))
      = ranked rank n xs ++ ranked rank n ys := by
  induction xs, ys using List.merge.induct (atMost rank) with
  | case1 ys => rw [List.nil_merge]; rfl
  | case2 xs => rw [List.merge_right]; exact (List.append_nil _).symm
  | case3 x xs y ys hle ih =>
      rw [List.cons_merge_cons_pos _ _ _ hle]
      by_cases hn : rank x = n
      · rw [ranked_cons_of_eq hn, ranked_cons_of_eq hn, ih hxs.of_cons,
          List.cons_append]
      · rw [ranked_cons_of_ne hn, ranked_cons_of_ne hn, ih hxs.of_cons]
  | case4 x xs y ys hle ih =>
      rw [List.cons_merge_cons_neg _ _ _ hle]
      by_cases hn : rank y = n
      · -- what is left of the left run ranks behind
        have hlt := atMost_eq_false.mp (Bool.eq_false_iff.mpr hle)
        have hnone : ranked rank n (x :: xs) = [] := by
          refine List.filter_eq_nil_iff.mpr fun x' hx' hn' => ?_
          have hge := hxs.first_le hx'
          rw [beq_iff_eq] at hn'
          omega
        rw [ranked_cons_of_eq hn, ranked_cons_of_eq hn, ih hxs, hnone]
        rfl
      · rw [ranked_cons_of_ne hn, ranked_cons_of_ne hn, ih hxs]

/-- Two lists in question merge into that of both. -/
private theorem merge_mergeSort (rank : α → Nat) (xs ys : List α) :
    (xs.mergeSort (atMost rank)).merge (ys.mergeSort (atMost rank))
      (atMost rank) = (xs ++ ys).mergeSort (atMost rank) := by
  refine eq_mergeSort (sorted_iff.mpr ?_) fun n => ?_
  · exact List.pairwise_merge (atMost_trans rank) (atMost_total rank) _ _
      (sorted_iff.mp (sorted_mergeSort rank xs))
        (sorted_iff.mp (sorted_mergeSort rank ys))
  · rw [ranked_merge n (sorted_mergeSort rank xs), ranked_mergeSort,
      ranked_mergeSort, ranked_append]

-- ================================================================= the parts

/-- The comparisons go by the ranks. -/
def Ranks (less : α → α → Checked Bool) (rank : α → Nat) (xs : List α) :
    Prop :=
  ∀ x ∈ xs, ∀ y ∈ xs, less x y = .ok (decide (rank x < rank y))

/-- Comparisons of fewer items go by the rank as well. -/
theorem Ranks.subset (h : Ranks less rank xs) (hsub : ys ⊆ xs) :
    Ranks less rank ys :=
  fun x hx y hy => h x (hsub hx) y (hsub hy)

/-- Two runs are merged into the list in question. -/
theorem merge_eq (h : Ranks less rank (xs ++ ys)) (patience : Nat) :
    Gives (merge less patience (xs.mergeSort (atMost rank))
      (ys.mergeSort (atMost rank))) ((xs ++ ys).mergeSort (atMost rank)) := by
  rw [← merge_mergeSort]
  refine merge_gives patience (sorted_mergeSort rank xs)
    (sorted_mergeSort rank ys) fun x hx y hy => ?_
  exact h y (List.mem_append_right _ (List.mem_mergeSort.mp hy)) x
    (List.mem_append_left _ (List.mem_mergeSort.mp hx))

/-- A run goes on as long as neighbours are in its order. -/
private theorem runFrom_eq (goesOn : α → α → Checked Bool)
    (goes : α → α → Bool) {last : α}
    (h : ∀ x ∈ last :: xs, ∀ y ∈ last :: xs, goesOn x y = .ok (goes x y)) :
    ∃ run rest, runFrom goesOn last xs = .ok (run, rest) ∧ run ++ rest = xs ∧
      List.IsChain (fun a b => goes a b = true) (last :: run) := by
  induction xs generalizing last with
  | nil => exact ⟨[], [], rfl, rfl, .singleton _⟩
  | cons x xs ih =>
      unfold runFrom
      rw [h last List.mem_cons_self x
        (List.mem_cons_of_mem _ List.mem_cons_self)]
      cases hgoes : goes last x with
      | false => exact ⟨[], x :: xs, rfl, rfl, .singleton _⟩
      | true =>
          obtain ⟨run, rest, hrun, hall, hchain⟩ := ih fun a ha b hb =>
            h a (List.mem_cons_of_mem _ ha) b (List.mem_cons_of_mem _ hb)
          refine ⟨x :: run, rest,
            ?_, by rw [List.cons_append, hall], hchain.cons_cons hgoes⟩
          show (runFrom goesOn x xs >>= fun out => pure (x :: out.1, out.2))
              = _
          rw [hrun]
          rfl

/-- In the opposite order strictly there are no equals, so the reverse is the
stable list. -/
private theorem reverse_eq_mergeSort
    (h : xs.Pairwise fun a b => rank b < rank a) :
    xs.reverse = xs.mergeSort (atMost rank) := by
  refine eq_mergeSort (List.pairwise_reverse.mpr (h.imp Nat.le_of_lt)) fun n =>
    ?_
  unfold ranked
  rw [List.filter_reverse]
  have hstrict := h.sublist (List.filter_sublist (p := fun x => rank x == n))
  have hequal : ∀ x ∈ xs.filter (fun x => rank x == n), rank x = n :=
      fun x hx =>
    rank_of_mem_ranked hx
  rcases hfound : xs.filter (fun x => rank x == n) with - | ⟨x, - | ⟨y, found⟩⟩
  · rfl
  · rfl
  · rw [hfound] at hstrict hequal
    have hlt := (List.pairwise_cons.mp hstrict).1 y List.mem_cons_self
    rw [hequal x List.mem_cons_self,
      hequal y (List.mem_cons_of_mem _ List.mem_cons_self)] at hlt
    exact absurd hlt (Nat.lt_irrefl _)

/-- The run at the front is sorted as it is to be. -/
theorem frontRun_eq (h : Ranks less rank xs) : ∃ run rest, run ++ rest = xs ∧
    frontRun less xs = .ok (run.mergeSort (atMost rank), rest) ∧
    (xs ≠ [] → run ≠ []) := by
  rcases xs with - | ⟨x, - | ⟨y, xs⟩⟩
  · refine ⟨[], [], rfl, ?_, fun hne => absurd rfl hne⟩
    rw [List.mergeSort_nil]
    rfl
  · refine ⟨[x], [], rfl, ?_, fun _ => List.cons_ne_nil _ _⟩
    rw [List.mergeSort_singleton]
    rfl
  · have htail : ∀ a ∈ y :: xs, a ∈ x :: y :: xs :=
      fun a ha => List.mem_cons_of_mem _ ha
    unfold frontRun
    dsimp only
    rw [h y (htail y List.mem_cons_self) x List.mem_cons_self]
    -- a strictly falling run is reversed, which no equal items see; any other
    -- run is sorted as it stands
    cases hdescends : decide (rank y < rank x) with
    | true =>
        obtain ⟨run, rest, hrun, hall, hchain⟩ :=
          runFrom_eq (fun a b => less b a)
            (fun a b => decide (rank b < rank a)) fun a ha b hb =>
              h b (htail b hb) a (htail a ha)
        have hwhole : x :: y :: run ++ rest = x :: y :: xs := by
          rw [List.cons_append, List.cons_append, hall]
        refine ⟨x :: y :: run, rest, hwhole, ?_,
          fun _ => List.cons_ne_nil _ _⟩
        have hchain' : List.IsChain (fun a b => rank b < rank a)
            (x :: y :: run) :=
          List.IsChain.cons_cons (of_decide_eq_true hdescends)
            (hchain.imp fun a b hab => of_decide_eq_true hab)
        have htrans : Trans (fun a b : α => rank b < rank a)
            (fun a b => rank b < rank a) fun a b => rank b < rank a :=
          ⟨fun hab hbc => Nat.lt_trans hbc hab⟩
        rw [← reverse_eq_mergeSort (List.isChain_iff_pairwise.mp hchain')]
        show (runFrom (fun a b => less b a) y xs >>= fun out =>
          pure ((x :: y :: out.1).reverse, out.2)) = _
        rw [hrun]
        rfl
    | false =>
        obtain ⟨run, rest, hrun, hall, hchain⟩ :=
          runFrom_eq (fun a b => do pure (!(← less b a)))
            (fun a b => !decide (rank b < rank a)) fun a ha b hb => by
              rw [h b (htail b hb) a (htail a ha)]
              rfl
        have hwhole : x :: y :: run ++ rest = x :: y :: xs := by
          rw [List.cons_append, List.cons_append, hall]
        refine ⟨x :: y :: run, rest, hwhole, ?_,
          fun _ => List.cons_ne_nil _ _⟩
        have hchain' : List.IsChain (fun a b => rank a ≤ rank b)
            (x :: y :: run) := by
          refine List.IsChain.cons_cons
            (Nat.le_of_not_lt (of_decide_eq_false hdescends))
              (hchain.imp fun a b hab => ?_)
          rw [Bool.not_eq_true'] at hab
          exact Nat.le_of_not_lt (of_decide_eq_false hab)
        have htrans : Trans (fun a b : α => rank a ≤ rank b)
            (fun a b => rank a ≤ rank b) fun a b => rank a ≤ rank b :=
          ⟨Nat.le_trans⟩
        rw [← eq_mergeSort (List.isChain_iff_pairwise.mp hchain') fun n => rfl]
        show (runFrom (fun a b => do pure (!(← less b a))) y xs >>= fun out =>
          pure (x :: y :: out.1, out.2)) = _
        rw [hrun]
        rfl

/-- Putting an item into a sorted run is a merge with it alone. -/
private theorem insert_eq {x : α} (hxs : Sorted rank xs)
    (hless : ∀ y ∈ xs, less x y = .ok (decide (rank x < rank y))) : ∃ n,
      place .forward (fun y => do pure (!(← less x y))) (xs.length + 1) xs
        = .ok n ∧
        xs.take n ++ x :: xs.drop n = xs.merge [x] (atMost rank) := by
  -- the items no greater come first, so the new one goes behind them
  have hleading : Leading (fun y => atMost rank y x) xs := by
    refine hxs.imp fun {a b} hab hb => ?_
    exact decide_eq_true (Nat.le_trans hab (of_decide_eq_true hb))
  have hplace : place .forward (fun y => do pure (!(← less x y)))
      (xs.length + 1) xs
        = .ok (xs.takeWhile fun y => atMost rank y x).length := by
    refine place_eq .forward (Nat.lt_succ_self _) (fun y hy => ?_) hleading
    rw [hless y hy]
    refine congrArg Except.ok ?_
    unfold atMost
    rw [← decide_not, decide_eq_decide, Nat.not_lt]
  have hfront : xs.merge [x] (atMost rank)
      = xs.takeWhile (fun y => atMost rank y x) ++ (xs.dropWhile fun y =>
        atMost rank y x).merge [x] (atMost rank) := by
    rw [← merge_append_left, List.takeWhile_append_dropWhile]
    intro y hy x' hx'
    rw [← Option.some.inj hx']
    exact List.mem_takeWhile_imp (p := fun y => atMost rank y x) hy
  have hback : (xs.dropWhile fun y => atMost rank y x).merge ([x] ++ [])
      (atMost rank)
        = [x] ++ (xs.dropWhile fun y =>
          atMost rank y x).merge [] (atMost rank) := by
    refine merge_append_right fun x' hx' y hy => ?_
    rw [List.mem_singleton.mp hx']
    exact hleading.not_of_mem_dropWhile (List.mem_of_head? hy)
  obtain ⟨htake, hdrop⟩ := take_takeWhile (fun y => atMost rank y x) xs
  refine ⟨_, hplace, ?_⟩
  rw [List.append_nil, List.merge_right] at hback
  rw [htake, hdrop, hfront, hback]
  rfl

/-- Items that are put into a run make it the one with them. -/
theorem insertAll_eq (h : Ranks less rank (xs ++ ys)) :
    insertAll less (xs.mergeSort (atMost rank)) ys
      = .ok ((xs ++ ys).mergeSort (atMost rank)) := by
  induction ys generalizing xs with
  | nil => rw [List.append_nil]; rfl
  | cons y ys ih =>
      have hgroup : xs ++ y :: ys = xs ++ [y] ++ ys := by simp
      have hown : y ∈ xs ++ y :: ys :=
        List.mem_append_right _ List.mem_cons_self
      have hless : ∀ x ∈ xs.mergeSort (atMost rank),
          less y x = .ok (decide (rank y < rank x)) :=
        fun x hx => h y hown x
          (List.mem_append_left _ (List.mem_mergeSort.mp hx))
      obtain ⟨n, hn, hput⟩ := insert_eq (sorted_mergeSort rank xs) hless
      have hone : [y].mergeSort (atMost rank) = [y] :=
        List.mergeSort_singleton y
      unfold insertAll
      rw [hn]
      show insertAll less ((xs.mergeSort (atMost rank)).take n
        ++ y :: (xs.mergeSort (atMost rank)).drop n) ys = _
      rw [hput, ← hone, merge_mergeSort, hgroup]
      exact ih (hgroup ▸ h)

/-- A long run is that of the first items, of which there is at least one if
there is any. -/
private theorem longRun_eq (h : Ranks less rank xs) (least : Nat) :
    ∃ run rest, run ++ rest = xs ∧ longRun less least xs
      = .ok (run.mergeSort (atMost rank), rest) ∧ (xs ≠ [] → run ≠ []) := by
  obtain ⟨run, rest, hall, hfront, hsome⟩ := frontRun_eq h
  let missing := least - (run.mergeSort (atMost rank)).length
  have htaken : run ++ rest.take missing ⊆ xs := by
    rw [← hall]
    exact (List.Sublist.append_left
      (List.take_sublist missing rest) run).subset
  refine ⟨run ++ rest.take missing, rest.drop missing, ?_, ?_, fun hne => ?_⟩
  · rw [List.append_assoc, List.take_append_drop, hall]
  · unfold longRun
    rw [hfront]
    show (insertAll less (run.mergeSort (atMost rank)) (rest.take missing)
        >>= fun run =>
      pure (run, rest.drop missing)) = _
    rw [insertAll_eq (h.subset htaken)]
    rfl
  · exact List.append_ne_nil_of_left_ne_nil (hsome hne) _

-- ================================================================== the stack

/-- The runs that wait are sorted parts of a list, the lowest one in front. -/
inductive Stacked (rank : α → Nat) : List (Waiting α) → List α → Prop
  | nil : Stacked rank [] []
  | push {stack : List (Waiting α)} {xs ys : List α} {depth : Nat}
      (h : Stacked rank stack xs) :
      Stacked rank (⟨ys.mergeSort (atMost rank), depth⟩ :: stack) (xs ++ ys)

/-- Merging neighbours leaves what has been taken. -/
private theorem collapse_eq (next : Nat) {stack : List (Waiting α)}
    (patience : Nat)
    (hstack : Stacked rank stack xs) (h : Ranks less rank (xs ++ ys)) :
    ∃ stack' xs' ys' patience',
      collapse less next (ys.mergeSort (atMost rank)) stack patience
        = .ok (ys'.mergeSort (atMost rank), stack', patience') ∧
        Stacked rank stack' xs' ∧ xs' ++ ys' = xs ++ ys := by
  induction hstack generalizing ys patience with
  | nil => exact ⟨[], [], ys, patience, rfl, .nil, rfl⟩
  | @push stack xs zs depth hstack ih =>
      unfold collapse
      split
      · rw [List.append_assoc] at h ⊢
        have hpair : Ranks less rank (zs ++ ys) :=
          h.subset (List.subset_append_right xs _)
        obtain ⟨patience', hmerge⟩ := merge_eq hpair patience
        rw [hmerge]
        exact ih patience' h
      · exact ⟨_, _, ys, patience, rfl, .push hstack, rfl⟩

/-- In the end everything that waits is merged. -/
private theorem mergeAll_eq (fuel : Nat) {stack : List (Waiting α)}
    (patience : Nat)
    (hfuel : stack.length ≤ fuel) (hstack : Stacked rank stack xs)
    (h : Ranks less rank (xs ++ ys)) :
    mergeAll less fuel (ys.mergeSort (atMost rank)) stack patience
      = .ok ((xs ++ ys).mergeSort (atMost rank)) := by
  induction fuel generalizing stack xs ys patience with
  | zero =>
      cases hstack with
      | nil => rfl
      | push => exact absurd hfuel (Nat.not_succ_le_zero _)
  | succ fuel ih =>
      cases hstack with
      | nil => rfl
      | @push rest xs zs depth hrest =>
          -- the top and what is below it
          have hpair : ∃ patience',
              merge less patience (zs.mergeSort (atMost rank))
                (ys.mergeSort (atMost rank))
                = .ok ((zs ++ ys).mergeSort (atMost rank), patience') := by
            rw [List.append_assoc] at h
            exact merge_eq (h.subset (List.subset_append_right xs _)) patience
          have htop : (merge less patience (zs.mergeSort (atMost rank))
              (ys.mergeSort (atMost rank)) >>= fun out =>
                mergeAll less fuel out.1 rest out.2)
                = .ok ((xs ++ zs ++ ys).mergeSort (atMost rank)) := by
            obtain ⟨patience', hmerge⟩ := hpair
            rw [List.append_assoc] at h ⊢
            rw [hmerge]
            exact ih patience' (Nat.le_of_succ_le_succ hfuel) hrest h
          unfold mergeAll
          cases hrest with
          | nil => exact htop
          | @push others xs vs depth' hothers =>
              dsimp only
              split
              · -- the two below the top
                have hbelow : vs ++ zs ⊆ xs ++ vs ++ zs ++ ys := by
                  rw [List.append_assoc xs]
                  exact List.subset_append_of_subset_left _
                    (List.subset_append_right _ _)
                obtain ⟨patience', hmerge⟩ :=
                  merge_eq (h.subset hbelow) patience
                rw [hmerge]
                rw [List.append_assoc xs] at h ⊢
                exact ih patience' (Nat.le_of_succ_le_succ hfuel)
                  (.push hothers) h
              · exact htop

/-- Cutting off runs and merging sorts what is left. -/
private theorem sortRuns_eq (size fuel : Nat) {stack : List (Waiting α)}
    {rest : List α} (patience : Nat) (hfuel : rest.length ≤ fuel)
    (hstack : Stacked rank stack xs) (h : Ranks less rank (xs ++ ys ++ rest)) :
    sortRuns less size fuel (ys.mergeSort (atMost rank)) stack patience rest
      = .ok ((xs ++ ys ++ rest).mergeSort (atMost rank)) := by
  -- on the fuel; what waits, the run on top and the rest are always the whole
  -- list
  induction fuel generalizing stack xs ys rest patience with
  | zero =>
      rw [List.eq_nil_of_length_eq_zero (Nat.le_zero.mp hfuel)] at h ⊢
      rw [List.append_nil] at h ⊢
      exact mergeAll_eq _ _ (Nat.le_refl _) hstack h
  | succ fuel ih =>
      cases hrest : rest with
      | nil =>
          rw [hrest, List.append_nil] at h
          rw [List.append_nil]
          exact mergeAll_eq _ _ (Nat.le_refl _) hstack h
      | cons x more =>
          obtain ⟨run, after, hall, hlong, hsome⟩ :=
            longRun_eq (h.subset (List.subset_append_right _ rest))
              (leastRun size)
          rw [hrest] at hlong hall hsome hfuel
          have hafter : after.length ≤ fuel := by
            have hpos := List.length_pos_iff.mpr (hsome (List.cons_ne_nil _ _))
            have hlength := congrArg List.length hall
            rw [List.length_append] at hlength
            omega
          show (longRun less (leastRun size) (x :: more) >>= fun out =>
            collapse less (depth size size _ _) (ys.mergeSort (atMost rank))
              stack patience >>= fun merged =>
                sortRuns less size fuel out.1 (⟨merged.1, _⟩ :: merged.2.1)
                  merged.2.2 out.2) = _
          rw [hlong]
          dsimp only [bind, Except.bind]
          generalize depth size size _ _ = next
          obtain ⟨stack', xs', ys', patience', hcollapse, hstack', hsame⟩ :=
            collapse_eq next patience hstack
              (h.subset (List.subset_append_left _ _))
          have hgroup : xs ++ ys ++ (x :: more)
              = xs' ++ ys' ++ run ++ after := by
            rw [← hsame, ← hall, List.append_assoc (xs' ++ ys')]
          rw [hcollapse, hgroup]
          refine ih patience' hafter (.push hstack') ?_
          rwa [← hgroup, ← hrest]

/-- If the comparisons go by ranks, a sort puts the items in the order of
these, and leaves items of one rank in the order in which they were given. -/
theorem sort_eq (h : Ranks less rank xs) :
    sort less xs = .ok (xs.mergeSort (atMost rank)) := by
  obtain ⟨run, rest, hall, hlong, -⟩ := longRun_eq h (leastRun xs.length)
  have hlength := congrArg List.length hall
  rw [List.length_append] at hlength
  unfold sort
  rw [hlong]
  have hsorted : sortRuns less xs.length xs.length
      (run.mergeSort (atMost rank)) [] standardPatience rest
        = .ok (([] ++ run ++ rest).mergeSort (atMost rank)) :=
    sortRuns_eq _ _ _ (by omega) .nil (by rwa [List.nil_append, hall])
  rw [List.nil_append, hall] at hsorted
  exact hsorted

end GraphMapper.Sorting

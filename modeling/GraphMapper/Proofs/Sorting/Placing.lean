/-
Where something belongs in a list, for questions whose answers fit together.

If whatever the question is answered with yes for stands in front of all else
(`Leading`), then the number of these items is found, by halving (`place_eq`)
and by strides (`gallop_eq`). A stride that goes on has passed items with the
answer yes only, and one that stops is in front of an item with the answer no,
or of none. The fuel of the strides is enough since each of them is longer than
the one before.

Main statement: `gallop_eq`.

Chain: `Sorting.Place` for halving and strides; `Sorting.Merging` asks where
the head of one row belongs in the other.
-/
import GraphMapper.Failure
import GraphMapper.Sorting.Place
import Mathlib.Data.List.TakeWhile

namespace GraphMapper.Sorting

variable {α : Type} {p : α → Bool} {goes : α → Checked Bool} {xs : List α}

/-- What the property holds of stands in front of all else. -/
def Leading (p : α → Bool) (xs : List α) : Prop :=
  xs.Pairwise fun a b => p b = true → p a = true

theorem Leading.sublist {ys : List α} (h : Leading p xs)
    (hsub : ys.Sublist xs) : Leading p ys :=
  List.Pairwise.sublist hsub h

/-- If the property holds of an item, it holds of all in front of it. -/
theorem Leading.before {front after : List α} {x : α}
    (h : Leading p (front ++ x :: after)) (hx : p x = true) :
    ∀ a ∈ front, p a = true :=
  fun a ha => (List.pairwise_append.mp h).2.2 a ha x List.mem_cons_self hx

/-- Nothing is taken beyond an item that the property does not hold of. -/
private theorem takeWhile_append_of_stop {ys : List α}
    (h : ∀ x, ys.head? = some x → p x = false) :
    (xs ++ ys).takeWhile p = xs.takeWhile p := by
  have hnone : ys.takeWhile p = [] := by
    cases ys with
    | nil => rfl
    | cons y ys => exact List.takeWhile_cons_of_neg (by simp [h y rfl])
  rw [List.takeWhile_append, hnone, List.append_nil]
  split
  · next hall => exact ((List.takeWhile_prefix p).eq_of_length hall).symm
  · rfl

-- ================================================================= by halving

private theorem Way.middle_lt (w : Way) {n : Nat} (hn : 0 < n) :
    w.middle n < n := by
  cases w <;> simp only [Way.middle] <;> omega

theorem place_eq (w : Way) {fuel : Nat} (hfuel : xs.length < fuel)
    (hgoes : ∀ x ∈ xs, goes x = .ok (p x)) (h : Leading p xs) :
    place w goes fuel xs = .ok (xs.takeWhile p).length := by
  -- on the fuel; the middle item says which half the place is in
  induction fuel generalizing xs with
  | zero => exact absurd hfuel (Nat.not_lt_zero _)
  | succ fuel ih =>
      unfold place
      simp only
      split
      · next hdrop =>
        have hnil : xs = [] := by
          by_contra hne
          have hmiddle := w.middle_lt (List.length_pos_iff.mpr hne)
          exact absurd (List.drop_eq_nil_iff.mp hdrop)
            (Nat.not_le_of_lt hmiddle)
        rw [hnil]
        rfl
      · next middle after hdrop =>
        have hlt : w.middle xs.length < xs.length := by
          by_contra hge
          rw [List.drop_eq_nil_of_le (Nat.le_of_not_lt hge)] at hdrop
          cases hdrop
        have hcut : xs.take (w.middle xs.length) ++ middle :: after = xs := by
          rw [← hdrop, List.take_append_drop]
        have hfront : (xs.take (w.middle xs.length)).length
            = w.middle xs.length :=
          List.length_take_of_le (Nat.le_of_lt hlt)
        generalize xs.take (w.middle xs.length) = front at hcut hfront ⊢
        rw [← hfront]
        subst hcut
        rw [List.length_append, List.length_cons] at hfuel
        rw [hgoes middle (List.mem_append_right _ List.mem_cons_self)]
        cases hmiddle : p middle with
        | true =>
            have hrest : place w goes fuel after
                = .ok (after.takeWhile p).length :=
              ih (by omega)
                (fun x hx =>
                  hgoes x (List.mem_append_right _
                    (List.mem_cons_of_mem _ hx)))
                (h.sublist ((List.sublist_cons_self _ _).trans
                  (List.sublist_append_right _ _)))
            show (place w goes fuel after >>= fun n =>
              pure (front.length + 1 + n)) = _
            rw [hrest, List.takeWhile_append_of_pos (h.before hmiddle),
              List.takeWhile_cons_of_pos hmiddle, List.length_append,
              List.length_cons]
            refine congrArg Except.ok ?_
            omega
        | false =>
            show place w goes fuel front = _
            rw [takeWhile_append_of_stop
              fun x hx => by rwa [← Option.some.inj hx]]
            exact ih (by omega)
              (fun x hx => hgoes x (List.mem_append_left _ hx))
                (h.sublist (List.sublist_append_left _ _))

-- ================================================================= by strides

/-- Strides end between an item with the answer yes and one with the answer no,
if there is one. -/
private theorem stride_spec (hgoes : ∀ x ∈ xs, goes x = .ok (p x))
    (fuel last next : Nat) (hfuel : xs.length < fuel + next)
    (hlt : last < next) (hlast : ∃ x, xs[last]? = some x ∧ p x = true) :
    ∃ last' next', stride goes xs fuel last next = .ok (last', next') ∧
      last' < next' ∧ (∃ x, xs[last']? = some x ∧ p x = true) ∧ ∀ x,
      xs[next']? = some x → p x = false := by
  induction fuel generalizing last next with
  | zero =>
      refine ⟨last, next, rfl, hlt, hlast, fun x hx => ?_⟩
      rw [List.getElem?_eq_none (by omega)] at hx
      cases hx
  | succ fuel ih =>
      unfold stride
      cases hnext : xs[next]? with
      | none =>
          exact ⟨last, next, rfl, hlt, hlast,
            fun x hx => by rw [hnext] at hx; cases hx⟩
      | some x =>
          simp only
          rw [hgoes x (List.mem_of_getElem? hnext)]
          cases hx : p x with
          | true => exact ih _ _ (by omega) (by omega) ⟨x, hnext, hx⟩
          | false =>
              refine ⟨last, next, rfl, hlt, hlast, fun y hy => ?_⟩
              rw [hnext] at hy
              rwa [← Option.some.inj hy]

/-- What is counted between the two is all that is left to count. -/
private theorem length_takeWhile_between (h : Leading p xs) {last next : Nat}
    (hlt : last < next) {x : α} (hx : xs[last]? = some x) (hpx : p x = true)
    (hstop : ∀ x, xs[next]? = some x → p x = false) : (xs.takeWhile p).length
      = last + 1 + (((xs.take next).drop (last + 1)).takeWhile p).length := by
  obtain ⟨hlast, rfl⟩ := List.getElem?_eq_some_iff.mp hx
  have hcut : xs = xs.take (last + 1) ++ ((xs.take next).drop (last + 1)
      ++ xs.drop next) := by
    have hfront : (xs.take next).take (last + 1) = xs.take (last + 1) := by
      rw [List.take_take, Nat.min_eq_left hlt]
    rw [← List.append_assoc, ← hfront, List.take_append_drop,
      List.take_append_drop]
  have hfront : ∀ a ∈ xs.take (last + 1), p a = true := by
    intro a ha
    obtain ⟨i, hi, rfl⟩ := List.mem_take_iff_getElem.mp ha
    have hle : i ≤ last :=
      Nat.le_of_lt_succ (Nat.lt_of_lt_of_le hi (Nat.min_le_left _ _))
    rcases Nat.lt_or_eq_of_le hle with hless | rfl
    · exact List.pairwise_iff_getElem.mp h i last _ hlast hless hpx
    · exact hpx
  have hbehind : ∀ x, (xs.drop next).head? = some x → p x = false := by
    intro x hx
    rw [List.head?_drop] at hx
    exact hstop x hx
  have hall := congrArg (fun ys => (ys.takeWhile p).length) hcut
  rwa [List.takeWhile_append_of_pos hfront, takeWhile_append_of_stop hbehind,
    List.length_append, List.length_take_of_le hlast] at hall

/-- Strides and then halving find how many items the answer is yes for. -/
theorem gallop_eq (w : Way) (hgoes : ∀ x ∈ xs, goes x = .ok (p x))
    (h : Leading p xs) :
    gallop w goes xs = .ok (xs.takeWhile p).length := by
  unfold gallop
  cases xs with
  | nil => rfl
  | cons first rest =>
      simp only
      rw [hgoes first List.mem_cons_self]
      cases hfirst : p first with
      | false =>
          rw [List.takeWhile_cons_of_neg (by simp [hfirst])]
          rfl
      | true =>
          obtain ⟨last, next, hstride, hlt, ⟨x, hx, hpx⟩, hstop⟩ :=
            stride_spec hgoes (first :: rest).length 0 1
              (by omega) Nat.zero_lt_one ⟨first, rfl, hfirst⟩
          generalize first :: rest = xs at *
          have hbetween : ((xs.take next).drop (last + 1)).Sublist xs :=
            (List.drop_sublist _ _).trans (List.take_sublist _ _)
          have hplace := place_eq w (Nat.lt_succ_self _)
            (fun x hx => hgoes x (hbetween.subset hx)) (h.sublist hbetween)
          show (stride goes xs xs.length 0 1 >>= fun reached => _) = _
          rw [hstride, length_takeWhile_between h hlt hx hpx hstop]
          show (place w goes _ _ >>= fun n => pure (last + 1 + n)) = _
          rw [hplace]
          rfl

end GraphMapper.Sorting

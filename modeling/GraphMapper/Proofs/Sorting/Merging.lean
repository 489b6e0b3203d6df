/-
Merging as it is done, and merging as it is meant.

What two sorted runs are to become is said by `List.merge`: the item of the
left run comes first unless it is behind that of the right one. Runs are merged
in another way, by galloping and from either end. In whichever direction, each
round takes items that are to come next (`weave_gives`). What the rounds rely
on is that one of the runs has the last word (`Woven.last`): when all of the
other run is over, they are done, so that they may stop one item early. A merge
first puts aside what is in its place already, and that is what gives the last
word to one of the runs.

# Backward as forward

A merge from the end is one from the front of the runs in reverse, with answers
that are turned round (`reverse_merge`). Equal items then come in the opposite
order, and in reverse that is the order in which they were. So there is one
statement about rounds (`weave_gives`), used in both directions
(`Between.merges`).

Main statement: `merge_gives`.

Chain: `Sorting.Placing` for gallops; `Sorting.Stability` merges runs with it.
-/
import GraphMapper.Proofs.Sorting.Placing
import GraphMapper.Sorting.Merge
import Mathlib.Data.List.Sort

namespace GraphMapper.Sorting

variable {α : Type} {le : α → α → Bool} {left right front back : List α}

-- =================================================== merges as they are meant

/-- What is not behind the first item of the right run comes first. -/
theorem merge_append_left
    (h : ∀ x ∈ front, ∀ y, right.head? = some y → le x y = true) :
    (front ++ left).merge right le = front ++ left.merge right le := by
  induction front with
  | nil => rfl
  | cons x front ih =>
      have hrest := ih fun x' hx' => h x' (List.mem_cons_of_mem _ hx')
      cases right with
      | nil => rw [List.merge_right, List.merge_right]
      | cons y right =>
          rw [List.cons_append,
            List.cons_merge_cons_pos _ _ _ (h x List.mem_cons_self y rfl),
            hrest]
          rfl

/-- So does what the first item of the left run is behind. -/
theorem merge_append_right
    (h : ∀ y ∈ front, ∀ x, left.head? = some x → le x y = false) :
    left.merge (front ++ right) le = front ++ left.merge right le := by
  induction front with
  | nil => rfl
  | cons y front ih =>
      have hrest := ih fun y' hy' => h y' (List.mem_cons_of_mem _ hy')
      cases left with
      | nil => rw [List.nil_merge, List.nil_merge]
      | cons x left =>
          have hneg : ¬le x y = true := by
            rw [h y List.mem_cons_self x rfl]
            exact Bool.false_ne_true
          rw [List.cons_append, List.cons_merge_cons_neg _ _ _ hneg, hrest]
          rfl

/-- What no item of the left run is behind may be left for the end. -/
private theorem merge_behind_right
    (h : ∀ x ∈ left, ∀ y ∈ back, le x y = true) :
    left.merge (right ++ back) le = left.merge right le ++ back := by
  induction left, right using List.merge.induct le with
  | case1 ys => rw [List.nil_merge, List.nil_merge]
  | case2 xs =>
      have hall : (xs ++ []).merge back le = xs ++ [].merge back le :=
        merge_append_left fun x hx y hy => h x hx y (List.mem_of_head? hy)
      rw [List.append_nil, List.nil_merge] at hall
      rwa [List.merge_right, List.nil_append]
  | case3 x xs y ys hle ih =>
      rw [List.cons_append, List.cons_merge_cons_pos _ _ _ hle,
        List.cons_merge_cons_pos _ _ _ hle, ← List.cons_append,
        ih fun x' hx' => h x' (List.mem_cons_of_mem _ hx')]
      rfl
  | case4 x xs y ys hle ih =>
      rw [List.cons_append, List.cons_merge_cons_neg _ _ _ hle,
        List.cons_merge_cons_neg _ _ _ hle, ih h]
      rfl

/-- So may what is behind every item of the right run. -/
private theorem merge_behind_left
    (h : ∀ x ∈ back, ∀ y ∈ right, le x y = false) :
    (left ++ back).merge right le = left.merge right le ++ back := by
  induction left, right using List.merge.induct le with
  | case1 ys =>
      have hall : back.merge (ys ++ []) le = ys ++ back.merge [] le :=
        merge_append_right fun y hy x hx => h x (List.mem_of_head? hx) y hy
      rw [List.append_nil, List.merge_right] at hall
      rwa [List.nil_merge, List.nil_append]
  | case2 xs => rw [List.merge_right, List.merge_right]
  | case3 x xs y ys hle ih =>
      rw [List.cons_append, List.cons_merge_cons_pos _ _ _ hle,
        List.cons_merge_cons_pos _ _ _ hle, ih h]
      rfl
  | case4 x xs y ys hle ih =>
      rw [List.cons_append, List.cons_merge_cons_neg _ _ _ hle,
        List.cons_merge_cons_neg _ _ _ hle, ← List.cons_append,
        ih fun x' hx' y' hy' => h x' hx' y' (List.mem_cons_of_mem _ hy')]
      rfl

-- ==================================================================== weaving

/-- Two runs that can be woven: the answers are those of an order in which both
are sorted, and the last item of one of them comes behind the other run. -/
structure Woven (w : Way) (rightFirst : α → α → Checked Bool)
    (le : α → α → Bool) (left right : List α) : Prop where
  answers : ∀ x ∈ left, ∀ y ∈ right, rightFirst y x = .ok (!le x y)
  leftSorted : left.Pairwise fun a b => ∀ y ∈ right,
    le b y = true → le a y = true
  rightSorted : right.Pairwise fun a b => ∀ x ∈ left,
    le x a = true → le x b = true
  last : match w with
    | .forward => ∀ x, [x] <:+ left → ∀ y ∈ right, le x y = false
    | .backward => ∀ y, [y] <:+ right → ∀ x ∈ left, le x y = true

variable {w : Way} {rightFirst : α → α → Checked Bool}

/-- What is left of such runs is the like. -/
private theorem Woven.suffix (h : Woven w rightFirst le left right)
    {left' right' : List α} (hleft : left' <:+ left)
    (hright : right' <:+ right) :
    Woven w rightFirst le left' right' := by
  refine ⟨fun x hx y hy => h.answers x (hleft.subset hx) y (hright.subset hy),
    ?_, ?_, ?_⟩
  · exact (h.leftSorted.sublist hleft.sublist).imp fun hab y hy =>
      hab y (hright.subset hy)
  · exact (h.rightSorted.sublist hright.sublist).imp fun hab x hx =>
      hab x (hleft.subset hx)
  · have hlast := h.last
    cases w with
    | forward =>
        exact fun x hx y hy => hlast x (hx.trans hleft) y (hright.subset hy)
    | backward =>
        exact fun y hy x hx => hlast y (hy.trans hright) x (hleft.subset hx)

/-- If there is a settlement, it is the rest of the merge. -/
private theorem Woven.remainder_eq (h : Woven w rightFirst le left right)
    (hsettled : w.settled left right = true) :
    w.remainder left right = left.merge right le := by
  have hlast := h.last
  cases w with
  | forward =>
      rcases left with - | ⟨x, - | ⟨x', left⟩⟩
      · rw [List.nil_merge]
        exact List.append_nil right
      · have hend : ([] ++ [x]).merge right le = [].merge right le ++ [x] := by
          refine merge_behind_left fun x' hx' y hy => ?_
          rw [List.mem_singleton.mp hx']
          exact hlast x (List.suffix_refl _) y hy
        rw [List.nil_merge] at hend
        exact hend.symm
      · have hnil : right = [] := by simpa [Way.settled] using hsettled
        rw [hnil, List.merge_right]
        rfl
  | backward =>
      rcases right with - | ⟨y, - | ⟨y', right⟩⟩
      · rw [List.merge_right]
        exact List.append_nil left
      · have hend : left.merge ([] ++ [y]) le = left.merge [] le ++ [y] := by
          refine merge_behind_right fun x hx y' hy' => ?_
          rw [List.mem_singleton.mp hy']
          exact hlast y (List.suffix_refl _) x hx
        rw [List.merge_right] at hend
        exact hend.symm
      · have hnil : left = [] := by simpa [Way.settled] using hsettled
        rw [hnil, List.nil_merge]
        rfl

/-- The merge comes out, with whatever patience. -/
def Gives (r : Checked (List α × Nat)) (out : List α) : Prop :=
  ∃ patience, r = .ok (out, patience)

/-- What comes out of a question may be gone on with. -/
theorem Gives.behind {β : Type} {r : Checked β} {b : β}
    {k : β → Checked (List α × Nat)} {out : List α} (h : r = .ok b)
    (hk : Gives (k b) out) : Gives (r >>= k) out := by
  rw [h]
  exact hk

theorem Gives.emit {r : Checked (List α × Nat)} {out : List α}
    (h : Gives r out) (xs : List α) :
    Gives (emit xs r) (xs ++ out) := by
  obtain ⟨patience, rfl⟩ := h
  exact ⟨patience, rfl⟩

/-- One goes on with runs that are not settled, and both of these have
items. -/
private theorem gives_proceed (h : Woven w rightFirst le left right)
    (patience : Nat) {goOn : α → List α → α → List α → Checked (List α × Nat)}
    (hgo : ∀ x xs y ys, left = x :: xs → right = y :: ys →
      Gives (goOn x xs y ys) (left.merge right le)) :
    Gives (proceed w patience left right goOn) (left.merge right le) := by
  unfold proceed
  split
  · next x xs y ys =>
    split
    · next hsettled => exact ⟨patience, by rw [h.remainder_eq hsettled]; rfl⟩
    · exact hgo x xs y ys rfl rfl
  · next hempty =>
    have hsettled : w.settled left right = true := by
      rcases left with - | ⟨x, xs⟩
      · cases w <;> simp [Way.settled]
      · rcases right with - | ⟨y, ys⟩
        · cases w <;> simp [Way.settled]
        · exact absurd rfl (hempty x xs y ys rfl)
    exact ⟨patience, by rw [h.remainder_eq hsettled]; rfl⟩

/-- As many items as a property holds of in front are these items. -/
theorem take_takeWhile (p : α → Bool) (xs : List α) :
    xs.take (xs.takeWhile p).length = xs.takeWhile p ∧
      xs.drop (xs.takeWhile p).length = xs.dropWhile p := by
  have hcut : xs.takeWhile p ++ xs.dropWhile p = xs :=
    List.takeWhile_append_dropWhile
  generalize xs.takeWhile p = front at hcut ⊢
  generalize xs.dropWhile p = rest at hcut ⊢
  subst hcut
  exact ⟨List.take_left, List.drop_left⟩

/-- The first item that is left does not have the property. -/
private theorem not_of_dropWhile {p : α → Bool} {xs rest : List α} {x : α}
    (h : xs.dropWhile p = x :: rest) : p x = false := by
  have hne : xs.dropWhile p ≠ [] := by
    rw [h]
    exact List.cons_ne_nil _ _
  have hhead := List.head_dropWhile_not p hne
  simpa [h] using hhead

/-- A row of the left run: what is not behind the first item of the right
one. -/
private theorem Woven.left_row (h : Woven w rightFirst le left right) {y : α}
    {ys : List α} (hright : right = y :: ys) : ∃ n,
      gallop w (fun x => do pure (!(← rightFirst y x))) left = .ok n ∧
        left.merge right le = left.take n ++ (left.drop n).merge right le ∧
        ∀ x xs, left.drop n = x :: xs → le x y = false := by
  have hy : y ∈ right := hright ▸ List.mem_cons_self
  refine ⟨(left.takeWhile fun x => le x y).length,
    gallop_eq w (fun x hx => ?_) ?_, ?_, ?_⟩
  · rw [h.answers x hx y hy]
    exact congrArg Except.ok (Bool.not_not _)
  · exact h.leftSorted.imp fun hab => hab y hy
  · obtain ⟨htake, hdrop⟩ := take_takeWhile (fun x => le x y) left
    rw [htake, hdrop, ← merge_append_left, List.takeWhile_append_dropWhile]
    intro x hx y' hy'
    rw [hright, List.head?_cons, Option.some_inj] at hy'
    rw [← hy']
    exact List.mem_takeWhile_imp (p := fun x => le x y) hx
  · intro x xs hrest
    rw [(take_takeWhile (fun x => le x y) left).2] at hrest
    exact not_of_dropWhile (p := fun x => le x y) hrest

/-- A row of the right run: what the first item of the left one is behind. -/
private theorem Woven.right_row (h : Woven w rightFirst le left right) {x : α}
    {xs : List α} (hleft : left = x :: xs) :
    ∃ k, gallop w (fun y => rightFirst y x) right = .ok k ∧
      left.merge right le = right.take k ++ left.merge (right.drop k) le ∧
      ∀ y ys, right.drop k = y :: ys → le x y = true := by
  have hx : x ∈ left := hleft ▸ List.mem_cons_self
  refine ⟨(right.takeWhile fun y => !le x y).length,
    gallop_eq w (fun y hy => ?_) ?_, ?_, ?_⟩
  · exact h.answers x hx y hy
  · refine h.rightSorted.imp fun {a b} hab hb => ?_
    rw [Bool.not_eq_true', Bool.eq_false_iff] at hb ⊢
    exact fun ha => hb (hab x hx ha)
  · obtain ⟨htake, hdrop⟩ := take_takeWhile (fun y => !le x y) right
    rw [htake, hdrop, ← merge_append_right, List.takeWhile_append_dropWhile]
    intro y hy x' hx'
    rw [hleft, List.head?_cons, Option.some_inj] at hx'
    rw [← hx']
    exact Bool.not_eq_true' _ |>.mp
      (List.mem_takeWhile_imp (p := fun y => !le x y) hy)
  · intro y ys hrest
    rw [(take_takeWhile (fun y => !le x y) right).2] at hrest
    exact Bool.not_eq_false' .. |>.mp
      (not_of_dropWhile (p := fun y => !le x y) hrest)

/-- Whatever the pace, what comes out is the merge. The induction is on the
rounds, each of which takes an item. -/
theorem weave_gives (fuel : Nat) (pace : Pace) (patience : Nat)
    (h : Woven w rightFirst le left right)
    (hfuel : left.length + right.length ≤ fuel) :
    Gives (weave w rightFirst fuel pace patience left right)
      (left.merge right le) := by
  induction fuel generalizing pace patience left right with
  | zero =>
      have hleft : left = [] := List.eq_nil_of_length_eq_zero (by omega)
      have hsettled : w.settled left right = true := by
        rw [hleft]
        cases w <;> simp [Way.settled]
      exact ⟨patience, by rw [← h.remainder_eq hsettled]; rfl⟩
  | succ fuel ih =>
      unfold weave
      refine gives_proceed h patience fun x xs y ys hleft hright => ?_
      have hx : x ∈ left := hleft ▸ List.mem_cons_self
      have hy : y ∈ right := hright ▸ List.mem_cons_self
      have hxs : xs <:+ left := hleft ▸ List.suffix_cons x xs
      have hys : ys <:+ right := hright ▸ List.suffix_cons y ys
      have hlengths : left.length = xs.length + 1 ∧
          right.length = ys.length + 1 := by
        rw [hleft, hright]
        exact ⟨rfl, rfl⟩
      cases pace with
      | walking leftWins rightWins =>
          simp only
          rw [h.answers x hx y hy]
          cases hle : le x y with
          | false =>
              have hfirst : left.merge right le = [y] ++ left.merge ys le := by
                rw [hleft, hright,
                  List.cons_merge_cons_neg _ _ _ (by simp [hle])]
                rfl
              rw [hfirst]
              exact (ih _ patience (h.suffix (List.suffix_refl _) hys)
                (by omega)).emit [y]
          | true =>
              have hfirst : left.merge right le
                  = [x] ++ xs.merge right le := by
                rw [hleft, hright, List.cons_merge_cons_pos _ _ _ hle]
                rfl
              rw [hfirst]
              exact (ih _ patience (h.suffix hxs (List.suffix_refl _))
                (by omega)).emit [x]
      | galloping first =>
          obtain ⟨n, hn, hrow, hbehind⟩ := h.left_row hright
          have hdropped := List.drop_suffix n left
          simp only
          rw [hn, hrow]
          refine Gives.emit ?_ _
          refine gives_proceed (h.suffix hdropped (List.suffix_refl _)) _
            fun x xs y' ys' hl hr => ?_
          obtain ⟨rfl, rfl⟩ : y' = y ∧ ys' = ys := by
            rw [hright] at hr
            exact ⟨(List.cons.inj hr).1.symm, (List.cons.inj hr).2.symm⟩
          -- the row of the left run is over, so an item of the right run comes
          -- next
          have hnext : (left.drop n).merge right le
              = [y'] ++ (x :: xs).merge ys' le := by
            rw [hl, hright,
              List.cons_merge_cons_neg _ _ _ (by simp [hbehind x xs hl])]
            rfl
          rw [hnext]
          refine Gives.emit ?_ _
          have hleft' := hl ▸ hdropped
          have hrest := h.suffix hleft' hys
          refine gives_proceed hrest _ fun x' xs' _ _ hl' _ => ?_
          obtain ⟨rfl, rfl⟩ : x' = x ∧ xs' = xs :=
            ⟨(List.cons.inj hl').1.symm, (List.cons.inj hl').2.symm⟩
          obtain ⟨k, hk, hrow', hbehind'⟩ := hrest.right_row rfl
          have hdropped' := (List.drop_suffix k ys').trans hys
          rw [hk, hrow']
          refine Gives.emit ?_ _
          refine gives_proceed (h.suffix hleft' hdropped') _
            fun x₂ xs₂ y₂ ys₂ hl₂ hr₂ => ?_
          obtain ⟨rfl, rfl⟩ : x₂ = x' ∧ xs₂ = xs' :=
            ⟨(List.cons.inj hl₂).1.symm, (List.cons.inj hl₂).2.symm⟩
          -- and after the row of the right run one of the left run
          have hnext' : (x₂ :: xs₂).merge (ys'.drop k) le
              = [x₂] ++ xs₂.merge (ys'.drop k) le := by
            rw [hr₂, List.cons_merge_cons_pos _ _ _ (hbehind' y₂ ys₂ hr₂)]
            rfl
          rw [hnext']
          refine Gives.emit ?_ _
          have hwoven :=
            h.suffix ((List.suffix_cons x₂ xs₂).trans hleft') hdropped'
          refine gives_proceed hwoven _ fun _ _ _ _ _ _ => ?_
          have hfewer : xs₂.length + (ys'.drop k).length ≤ fuel := by
            have hshort := hleft'.length_le
            have hshort' := (List.drop_suffix k ys').length_le
            rw [List.length_cons] at hshort
            omega
          split
          · exact ih _ _ hwoven hfewer
          · exact ih _ _ hwoven hfewer

-- ======================================================== runs by their ranks

variable {rank : α → Nat} {less : α → α → Checked Bool}

/-- One item does not rank behind the other. -/
def atMost (rank : α → Nat) (x y : α) : Bool := decide (rank x ≤ rank y)

theorem atMost_eq_false {x y : α} :
    atMost rank x y = false ↔ rank y < rank x := by
  unfold atMost
  rw [decide_eq_false_iff_not, Nat.not_le]

/-- The items stand in the order of their ranks. -/
def Sorted (rank : α → Nat) (xs : List α) : Prop :=
  xs.Pairwise fun a b => rank a ≤ rank b

theorem Sorted.reverse {xs : List α} (h : Sorted rank xs) :
    xs.reverse.Pairwise fun a b => rank b ≤ rank a :=
      List.pairwise_reverse.mpr h

/-- Behind the first item that does not have the property there is none that
has. -/
theorem Leading.not_of_mem_dropWhile {p : α → Bool} {xs : List α} {x : α}
    (h : Leading p xs) (hx : x ∈ xs.dropWhile p) : p x = false := by
  have hrest := h.sublist (List.dropWhile_suffix p).sublist
  cases hdrop : xs.dropWhile p with
  | nil =>
      rw [hdrop] at hx
      cases hx
  | cons first rest =>
      have hfirst := not_of_dropWhile hdrop
      rw [hdrop] at hx hrest
      rcases List.mem_cons.mp hx with rfl | hx
      · exact hfirst
      · rw [Bool.eq_false_iff] at hfirst ⊢
        exact fun hp => hfirst ((List.pairwise_cons.mp hrest).1 x hx hp)

/-- Runs in reverse, merged so that what ranks higher comes first, are the
merge in reverse. -/
theorem reverse_merge {xs ys : List α}
    (hxs : xs.Pairwise fun a b => rank b ≤ rank a)
    (hys : ys.Pairwise fun a b => rank b ≤ rank a) :
    (xs.merge ys fun x y => decide (rank y < rank x)).reverse
      = xs.reverse.merge ys.reverse (atMost rank) := by
  induction xs, ys using List.merge.induct fun x y =>
      decide (rank y < rank x) with
  | case1 ys => rw [List.nil_merge, List.reverse_nil, List.nil_merge]
  | case2 xs => rw [List.merge_right, List.reverse_nil, List.merge_right]
  | case3 x xs y ys hle ih =>
      have hlt := of_decide_eq_true hle
      rw [List.cons_merge_cons_pos _ _ _ hle, List.reverse_cons,
        ih hxs.of_cons hys, List.reverse_cons (a := x), merge_behind_left]
      intro x' hx' y' hy'
      rw [List.mem_singleton.mp hx', atMost_eq_false]
      rcases List.mem_cons.mp (List.mem_reverse.mp hy') with rfl | hy'
      · exact hlt
      · exact Nat.lt_of_le_of_lt ((List.pairwise_cons.mp hys).1 y' hy') hlt
  | case4 x xs y ys hle ih =>
      have hge : rank x ≤ rank y :=
        Nat.le_of_not_lt fun hlt => hle (decide_eq_true hlt)
      rw [List.cons_merge_cons_neg _ _ _ hle, List.reverse_cons,
        ih hxs hys.of_cons, List.reverse_cons (a := y), merge_behind_right]
      intro x' hx' y' hy'
      rw [List.mem_singleton.mp hy']
      refine decide_eq_true (Nat.le_trans ?_ hge)
      rcases List.mem_cons.mp (List.mem_reverse.mp hx') with rfl | hx'
      · exact Nat.le_refl _
      · exact (List.pairwise_cons.mp hxs).1 x' hx'

/-- Two runs of which the right one begins in front of the left one and the
left one ends behind the right one can be woven from the front, but for the
first item. -/
private theorem woven_forward {middle inner : List α} {last y : α}
    {ys : List α}
    (hmiddle : Sorted rank middle) (hlast : middle.getLast? = some last)
    (hinner : inner = y :: ys) (hsorted : Sorted rank inner)
    (hbehind : ∀ y ∈ inner, rank y < rank last)
    (hless : ∀ x ∈ middle, ∀ y ∈ inner,
      less y x = .ok (decide (rank y < rank x))) :
    Woven .forward less (atMost rank) middle ys := by
  subst hinner
  refine ⟨fun x hx y' hy' => ?_, ?_, ?_, fun x hx y' hy' => ?_⟩
  · rw [hless x hx y' (List.mem_cons_of_mem _ hy')]
    refine congrArg Except.ok ?_
    unfold atMost
    rw [← decide_not, decide_eq_decide, Nat.not_le]
  · refine hmiddle.imp fun {a b} hab y' _ hb => ?_
    exact decide_eq_true (Nat.le_trans hab (of_decide_eq_true hb))
  · refine hsorted.of_cons.imp fun {a b} hab x _ ha => ?_
    exact decide_eq_true (Nat.le_trans (of_decide_eq_true ha) hab)
  · obtain ⟨front, hfront⟩ := hx
    rw [← hfront, List.getLast?_concat, Option.some_inj] at hlast
    rw [atMost_eq_false, hlast]
    exact hbehind y' (List.mem_cons_of_mem _ hy')

/-- They can also be woven from the end, but for the last item. -/
private theorem woven_backward {before inner : List α} {y : α} {ys : List α}
    (hbefore : before.Pairwise fun a b => rank b ≤ rank a)
    (hinner : inner = y :: ys) (hsorted : Sorted rank inner)
    (hahead : ∀ x ∈ before, rank y < rank x)
    (hless : ∀ x ∈ before, ∀ y ∈ inner,
      less y x = .ok (decide (rank y < rank x))) :
    Woven .backward (fun y x => do pure (!(← less y x)))
      (fun x y => decide (rank y < rank x)) before inner.reverse := by
  refine ⟨fun x hx y' hy' => ?_, ?_, ?_, fun y' hy' x hx => ?_⟩
  · rw [hless x hx y' (List.mem_reverse.mp hy')]
    rfl
  · refine hbefore.imp fun {a b} hab y' _ hb => ?_
    exact decide_eq_true (Nat.lt_of_lt_of_le (of_decide_eq_true hb) hab)
  · refine hsorted.reverse.imp fun {a b} hab x _ ha => ?_
    exact decide_eq_true (Nat.lt_of_le_of_lt hab (of_decide_eq_true ha))
  · obtain ⟨front, hfront⟩ := hy'
    rw [hinner, List.reverse_cons] at hfront
    rw [(List.append_inj' hfront rfl).2 |> List.singleton_inj.mp]
    exact decide_eq_true (hahead x hx)

/-- What the right run ends with and no item of the left one is behind, counted
from the end. -/
private theorem back_row {last : α} (hright : Sorted rank right)
    (hless : ∀ y ∈ right, less y last = .ok (decide (rank y < rank last))) :
    ∃ k, gallop .backward (fun y => do pure (!(← less y last))) right.reverse
      = .ok k ∧ (∀ y ∈ right.take (right.length - k), rank y < rank last) ∧
      ∀ y ∈ right.drop (right.length - k), rank last ≤ rank y := by
  have hleading : Leading (fun y => decide (rank last ≤ rank y))
      right.reverse := by
    refine hright.reverse.imp fun {a b} hab hb => ?_
    exact decide_eq_true (Nat.le_trans (of_decide_eq_true hb) hab)
  have hgallop : gallop .backward (fun y => do pure (!(← less y last)))
      right.reverse
        = .ok (right.reverse.takeWhile fun y =>
          decide (rank last ≤ rank y)).length := by
    refine gallop_eq .backward (fun y hy => ?_) hleading
    rw [hless y (List.mem_reverse.mp hy)]
    refine congrArg Except.ok ?_
    rw [← decide_not, decide_eq_decide, Nat.not_lt]
  obtain ⟨htake, hdrop⟩ :=
    take_takeWhile (fun y => decide (rank last ≤ rank y)) right.reverse
  refine ⟨_, hgallop, fun y hy => ?_, fun y hy => ?_⟩
  · rw [← List.mem_reverse, ← List.drop_reverse, hdrop] at hy
    have hnot := hleading.not_of_mem_dropWhile hy
    rwa [decide_eq_false_iff_not, Nat.not_le] at hnot
  · rw [← List.mem_reverse, ← List.take_reverse, htake] at hy
    exact of_decide_eq_true
      (List.mem_takeWhile_imp (p := fun y => decide (rank last ≤ rank y)) hy)

/-- What the left run begins with and is not behind the first item of the right
one. -/
private theorem front_row {y : α} (hleft : Sorted rank left)
    (hless : ∀ x ∈ left, less y x = .ok (decide (rank y < rank x))) :
    ∃ n, gallop .forward (fun x => do pure (!(← less y x))) left = .ok n ∧
      (∀ x ∈ left.take n, rank x ≤ rank y) ∧ ∀ x ∈ left.drop n,
      rank y < rank x := by
  have hleading : Leading (fun x => atMost rank x y) left := by
    refine hleft.imp fun {a b} hab hb => ?_
    exact decide_eq_true (Nat.le_trans hab (of_decide_eq_true hb))
  have hgallop : gallop .forward (fun x => do pure (!(← less y x))) left
      = .ok (left.takeWhile fun x => atMost rank x y).length := by
    refine gallop_eq .forward (fun x hx => ?_) hleading
    rw [hless x hx]
    refine congrArg Except.ok ?_
    unfold atMost
    rw [← decide_not, decide_eq_decide, Nat.not_lt]
  obtain ⟨htake, hdrop⟩ := take_takeWhile (fun x => atMost rank x y) left
  refine ⟨_, hgallop, fun x hx => ?_, fun x hx => ?_⟩
  · rw [htake] at hx
    exact of_decide_eq_true
      (List.mem_takeWhile_imp (p := fun x => atMost rank x y) hx)
  · rw [hdrop] at hx
    exact atMost_eq_false.mp (hleading.not_of_mem_dropWhile hx)

/-- What is left of two runs between their ends: the left run ends behind the
right one, and begins behind its first item. -/
structure Between (less : α → α → Checked Bool) (rank : α → Nat)
    (middle inner before : List α) (last : α) : Prop where
  ends : middle = before.reverse ++ [last]
  middleSorted : Sorted rank middle
  innerSorted : Sorted rank inner
  behind : ∀ y ∈ inner, rank y < rank last
  ahead : ∀ y, inner.head? = some y → ∀ x ∈ middle, rank y < rank x
  answers : ∀ x ∈ middle, ∀ y ∈ inner,
    less y x = .ok (decide (rank y < rank x))

variable {middle inner before : List α} {last y : α} {ys : List α}

/-- From the front, the first item of the right run comes out at once. -/
theorem Between.forward (h : Between less rank middle inner before last)
    (hinner : inner = y :: ys) (patience fuel : Nat)
    (hfuel : middle.length + ys.length ≤ fuel) : ∃ merged,
      Gives (weave .forward less fuel (.walking 0 0) patience middle ys)
        merged ∧
        y :: merged = middle.merge inner (atMost rank) := by
  have hlast : middle.getLast? = some last := by
    rw [h.ends, List.getLast?_concat]
  have hwoven :=
    woven_forward h.middleSorted hlast hinner h.innerSorted h.behind h.answers
  have hfirst : middle.merge ([y] ++ ys) (atMost rank)
      = [y] ++ middle.merge ys (atMost rank) := by
    refine merge_append_right fun y' hy' x hx => ?_
    rw [List.mem_singleton.mp hy', atMost_eq_false]
    exact h.ahead y (by rw [hinner]; rfl) x (List.mem_of_head? hx)
  refine ⟨_, weave_gives fuel (.walking 0 0) patience hwoven hfuel, ?_⟩
  rw [hinner]
  exact hfirst.symm

/-- From the end, the last item of the left run does. -/
theorem Between.backward (h : Between less rank middle inner before last)
    (hinner : inner = y :: ys) (patience fuel : Nat)
    (hfuel : before.length + inner.length ≤ fuel) : ∃ merged,
      Gives (weave .backward (fun y x => do pure (!(← less y x))) fuel
        (.walking 0 0) patience before
        inner.reverse) merged ∧
        (last :: merged).reverse = middle.merge inner (atMost rank) := by
  have hmem : ∀ x ∈ before, x ∈ middle := by
    intro x hx
    rw [h.ends]
    exact List.mem_append_left _ (List.mem_reverse.mpr hx)
  have hbefore : before.Pairwise fun a b => rank b ≤ rank a := by
    have hreverse := h.middleSorted.reverse
    rw [h.ends, List.reverse_append, List.reverse_reverse] at hreverse
    exact hreverse.of_cons
  have hwoven := woven_backward hbefore hinner h.innerSorted
    (fun x hx => h.ahead y (by rw [hinner]; rfl) x (hmem x hx))
    fun x hx y hy => h.answers x (hmem x hx) y hy
  refine ⟨_, weave_gives fuel (.walking 0 0) patience hwoven
    (by rwa [List.length_reverse]), ?_⟩
  rw [List.reverse_cons, reverse_merge hbefore h.innerSorted.reverse,
    List.reverse_reverse, h.ends, merge_behind_left]
  intro x hx y hy
  rw [List.mem_singleton.mp hx, atMost_eq_false]
  exact h.behind y hy

/-- The last item of a sorted run, if there is anything left of the run behind
its front. -/
private theorem last_of_drop {n : Nat} (hleft : Sorted rank left)
    (hreverse : (left.drop n).reverse = last :: before) :
    left.drop n = before.reverse ++ [last] ∧ last ∈ left ∧ ∀ x ∈ left,
      rank x ≤ rank last := by
  have hends : left.drop n = before.reverse ++ [last] := by
    rw [← List.reverse_reverse (left.drop n), hreverse, List.reverse_cons]
  have hleftEnds : left = left.take n ++ before.reverse ++ [last] := by
    rw [List.append_assoc, ← hends, List.take_append_drop]
  refine ⟨hends, ?_, fun x hx => ?_⟩
  · rw [hleftEnds]
    exact List.mem_append_right _ (List.mem_singleton.mpr rfl)
  · rw [hleftEnds] at hx hleft
    rcases List.mem_append.mp hx with hx | hx
    · exact (List.pairwise_append.mp hleft).2.2 x hx last
        (List.mem_singleton.mpr rfl)
    · rw [List.mem_singleton.mp hx]

/-- What is left between the ends is merged from the shorter side. -/
theorem Between.merges (h : Between less rank middle inner before last)
    (hinner : inner = y :: ys) (front back : List α) (patience fuel : Nat)
    (hfuel : middle.length + inner.length ≤ fuel) :
    Gives (if before.length < inner.length then do
        let out ← weave .forward less fuel (.walking 0 0) patience middle ys
        pure (front ++ y :: out.1 ++ back, out.2)
      else do
        let out ← weave .backward (fun y x => do pure (!(← less y x))) fuel
          (.walking 0 0) patience before inner.reverse
        pure (front ++ (last :: out.1).reverse ++ back, out.2))
      (front ++ (middle.merge inner (atMost rank) ++ back)) := by
  have hlengths := congrArg List.length h.ends
  rw [List.length_append, List.length_reverse,
    List.length_singleton] at hlengths
  have hcount := congrArg List.length hinner
  rw [List.length_cons] at hcount
  split
  · obtain ⟨merged, ⟨patience', hweave⟩, hmerged⟩ :=
      h.forward hinner patience fuel (by omega)
    rw [hweave, ← hmerged]
    exact ⟨patience', by rw [← List.append_assoc]; rfl⟩
  · obtain ⟨merged, ⟨patience', hweave⟩, hmerged⟩ :=
      h.backward hinner patience fuel (by omega)
    rw [hweave, ← hmerged]
    exact ⟨patience', by rw [← List.append_assoc]; rfl⟩

/-- Two sorted runs are merged as it is meant. -/
theorem merge_gives (patience : Nat) (hleft : Sorted rank left)
    (hright : Sorted rank right)
    (hless : ∀ x ∈ left, ∀ y ∈ right,
      less y x = .ok (decide (rank y < rank x))) :
    Gives (merge less patience left right)
      (left.merge right (atMost rank)) := by
  -- the front of the left run and the back of the right run are in place
  -- already; what is between is woven
  unfold merge
  cases right with
  | nil => exact ⟨patience, by rw [List.merge_right]; rfl⟩
  | cons y rest =>
      obtain ⟨n, hn, hfront, hmiddle⟩ := front_row hleft fun x hx =>
        hless x hx y List.mem_cons_self
      have hstart : left.merge (y :: rest) (atMost rank)
          = left.take n ++ (left.drop n).merge (y :: rest) (atMost rank) := by
        rw [← merge_append_left, List.take_append_drop]
        intro x hx y' hy'
        rw [← Option.some.inj hy']
        exact decide_eq_true (hfront x hx)
      refine Gives.behind hn ?_
      cases hreverse : (left.drop n).reverse with
      | nil =>
          rw [List.reverse_eq_nil_iff] at hreverse
          exact ⟨patience, by rw [hstart, hreverse, List.nil_merge]; rfl⟩
      | cons last before =>
          obtain ⟨hends, hown, hlast⟩ := last_of_drop hleft hreverse
          obtain ⟨k, hk, hinner, hback⟩ := back_row hright fun y hy =>
            hless last hown y hy
          refine Gives.behind hk ?_
          have hcut :=
            List.take_append_drop ((y :: rest).length - k) (y :: rest)
          generalize (y :: rest).take ((y :: rest).length - k) = inner at *
          generalize (y :: rest).drop ((y :: rest).length - k) = back at *
          have hend : ∀ xs : List α, (∀ x ∈ xs, x ∈ left) →
              xs.merge (inner ++ back) (atMost rank)
                = xs.merge inner (atMost rank) ++ back := by
            intro xs hxs
            refine merge_behind_right fun x hx y hy => decide_eq_true ?_
            exact Nat.le_trans (hlast x (hxs x hx)) (hback y hy)
          have hsub : inner.Sublist (y :: rest) :=
            hcut ▸ List.sublist_append_left inner back
          cases inner with
          | nil =>
              have hall := hend left fun _ hx => hx
              rw [hcut, List.merge_right, ← List.nil_append back, hcut] at hall
              exact ⟨patience, by rw [hall]; rfl⟩
          | cons y' ys =>
              have hbetween : Between less rank (left.drop n)
                  (y' :: ys) before last := by
                refine ⟨hends, hleft.sublist (List.drop_sublist n left),
                  hright.sublist hsub, hinner, fun y'' hy'' x hx => ?_,
                  fun x hx y hy => ?_⟩
                · rw [← Option.some.inj hy'', (List.cons.inj hcut).1]
                  exact hmiddle x hx
                · exact hless x ((List.drop_sublist n left).subset hx) y
                    (hsub.subset hy)
              have hshort := hsub.length_le
              have hdropped := (List.drop_sublist n left).length_le
              have hfuel : (left.drop n).length + (y' :: ys).length
                  ≤ left.length + (y' :: ys ++ back).length := by
                rw [hcut]
                omega
              rw [hstart, ← hcut, hend _ fun x hx =>
                (List.drop_sublist n left).subset hx]
              exact hbetween.merges rfl _ back patience _ hfuel

end GraphMapper.Sorting

/-
Sorting by several keys.

A sort that leaves equal items in their order can be repeated: if items are
sorted by the last key first and by the first one last, then of two items the
one comes out ahead that the first key in which they differ puts ahead, and two
that are alike in every key stay as they were (`arrange_ordered`). Neither a
key that is sorted by downwards changes that, since then the items are turned
round before and behind the sort, nor does anything else that items are sorted
for in between.

Which comparisons are made, and of what, is told by the values alone. So the
items can be anything that has these values (`arrange`).

Main statement: `arrange_ordered`.
-/
import GraphMapper.Graph.Evaluator
import GraphMapper.Proofs.Sorting.Permutation
import GraphMapper.Proofs.Sorting.Stability

namespace GraphMapper

open GraphMapper.Graph (holds)

-- ============================================================= ordered values

namespace Value

/-- The values can be compared with each other, and are in one order: of two of
them one is at most the other, one is less if the other is not at most it, and
equal values are at most each other. -/
structure Ordered (vs : List Value) : Prop where
  total : ∀ v ∈ vs, ∀ w ∈ vs, holds .atMost v w = true ∨
    holds .atMost w v = true
  trans : ∀ u ∈ vs, ∀ v ∈ vs, ∀ w ∈ vs, holds .atMost u v = true →
    holds .atMost v w = true → holds .atMost u w = true
  less : ∀ v ∈ vs, ∀ w ∈ vs, related? .less v w = some !holds .atMost w v
  equal : ∀ v ∈ vs, ∀ w ∈ vs,
    v.equal w = (holds .atMost v w && holds .atMost w v)

variable {vs ws : List Value} {v w : Value}

theorem Ordered.subset (h : Ordered vs) (hsub : ws ⊆ vs) : Ordered ws where
  total v hv w hw := h.total v (hsub hv) w (hsub hw)
  trans u hu v hv w hw := h.trans u (hsub hu) v (hsub hv) w (hsub hw)
  less v hv w hw := h.less v (hsub hv) w (hsub hw)
  equal v hv w hw := h.equal v (hsub hv) w (hsub hw)

/-- How many of the values are less. -/
def rank (vs : List Value) (v : Value) : Nat :=
  vs.countP fun u => !holds .atMost v u

/-- What is at most another value has no more values below it. -/
private theorem Ordered.rank_le (h : Ordered vs) (hv : v ∈ vs) (hw : w ∈ vs)
    (hle : holds .atMost v w = true) : rank vs v ≤ rank vs w := by
  refine List.countP_mono_left fun u hu hless => ?_
  rw [Bool.not_eq_true', Bool.eq_false_iff] at hless ⊢
  exact fun hwu => hless (h.trans v hv w hw u hu hle hwu)

/-- What is less has fewer, since it is itself below the other. -/
private theorem Ordered.rank_lt (h : Ordered vs) (hv : v ∈ vs) (hw : w ∈ vs)
    (hless : holds .atMost w v = false) : rank vs v < rank vs w := by
  have hle : holds .atMost v w = true :=
    (h.total v hv w hw).resolve_right (Bool.eq_false_iff.mp hless)
  have hself : holds .atMost v v = true := (h.total v hv v hv).elim id id
  obtain ⟨front, after, hsplit⟩ := List.append_of_mem hv
  have hpart : ∀ us, us ⊆ vs → us.countP (fun u => !holds .atMost v u)
      ≤ us.countP fun u => !holds .atMost w u := by
    intro us hus
    refine List.countP_mono_left fun u hu hvu => ?_
    rw [Bool.not_eq_true', Bool.eq_false_iff] at hvu ⊢
    exact fun hwu => hvu (h.trans v hv w hw u (hus hu) hle hwu)
  have hfront := hpart front fun u hu => hsplit ▸ List.mem_append_left _ hu
  have hafter := hpart after fun u hu =>
    hsplit ▸ List.mem_append_right _ (List.mem_cons_of_mem _ hu)
  unfold rank
  rw [hsplit, List.countP_append, List.countP_append, List.countP_cons,
    List.countP_cons, hself, hless]
  simp only [Bool.not_true, Bool.false_eq_true, if_false,
    Bool.not_false, if_true]
  omega

private theorem Ordered.rank_lt_iff (h : Ordered vs) (hv : v ∈ vs)
    (hw : w ∈ vs) : rank vs v < rank vs w ↔ holds .atMost w v = false := by
  refine ⟨fun hlt => Bool.eq_false_iff.mpr fun hle => ?_, h.rank_lt hv hw⟩
  exact absurd hlt (Nat.not_lt.mpr (h.rank_le hw hv hle))

/-- Comparisons go by ranks. -/
private theorem Ordered.related?_less (h : Ordered vs) (hv : v ∈ vs)
    (hw : w ∈ vs) :
    related? .less v w = some (decide (rank vs v < rank vs w)) := by
  rw [h.less v hv w hw, Option.some_inj, Bool.eq_iff_iff, Bool.not_eq_true',
    decide_eq_true_eq, h.rank_lt_iff hv hw]

private theorem Ordered.holds_less (h : Ordered vs) (hv : v ∈ vs)
    (hw : w ∈ vs) : holds .less v w = true ↔ rank vs v < rank vs w := by
  unfold holds
  rw [h.related?_less hv hw, beq_iff_eq, Option.some_inj, decide_eq_true_eq]

private theorem Ordered.equal_iff (h : Ordered vs) (hv : v ∈ vs)
    (hw : w ∈ vs) : v.equal w = true ↔ rank vs v = rank vs w := by
  rw [h.equal v hv w hw, Bool.and_eq_true, ← Bool.not_eq_false,
    ← Bool.not_eq_false, ← h.rank_lt_iff hw hv, ← h.rank_lt_iff hv hw]
  omega

end Value

namespace Sorting

variable {α : Type} {xs ys : List α} {a b : α}

-- ====================================================================== ahead

/-- The one stands ahead of the other in the list. -/
def Ahead (xs : List α) (a b : α) : Prop := [a, b].Sublist xs

/-- Of two items one stands ahead. -/
private theorem ahead_total (ha : a ∈ xs) (hb : b ∈ xs) (hne : a ≠ b) :
    Ahead xs a b ∨ Ahead xs b a := by
  obtain ⟨front, after, rfl⟩ := List.append_of_mem ha
  rcases List.mem_append.mp hb with hb | hb
  · right
    exact (List.singleton_sublist.mpr hb).append
      (List.singleton_sublist.mpr List.mem_cons_self)
  · left
    have hafter : b ∈ after := (List.mem_cons.mp hb).resolve_left hne.symm
    exact ((List.singleton_sublist.mpr hafter).cons_cons a).trans
      (List.sublist_append_right _ _)

/-- And only one, if no item is there twice. -/
private theorem not_ahead (hnodup : xs.Nodup) (h : Ahead xs a b) :
    ¬Ahead xs b a := by
  intro hback
  induction xs with
  | nil => cases h
  | cons x xs ih =>
      obtain ⟨hx, hrest⟩ := List.nodup_cons.mp hnodup
      have hin : ∀ {c d : α}, [c, d].Sublist (x :: xs) →
          c = x ∧ d ∈ xs ∨ [c, d].Sublist xs := by
        intro c d hcd
        cases hcd with
        | cons _ hcd => exact .inr hcd
        | cons_cons _ hcd => exact .inl ⟨rfl, List.singleton_sublist.mp hcd⟩
      have hmem : ∀ {c d : α}, [c, d].Sublist xs → d ∈ xs := fun hcd =>
        hcd.subset (List.mem_cons_of_mem _ List.mem_cons_self)
      rcases hin h with ⟨rfl, hb⟩ | h'
      · rcases hin hback with ⟨rfl, -⟩ | hback'
        · exact hx hb
        · exact hx (hmem hback')
      · rcases hin hback with ⟨rfl, -⟩ | hback'
        · exact hx (hmem h')
        · exact ih hrest h' hback'

private theorem ahead_reverse : Ahead xs.reverse a b ↔ Ahead xs b a := by
  unfold Ahead
  rw [← List.reverse_sublist, List.reverse_reverse]
  rfl

/-- A stable sort puts the item of lower rank ahead, and leaves items of one
rank as they were. -/
private theorem ahead_mergeSort {rank : α → Nat} (hnodup : xs.Nodup)
    (ha : a ∈ xs)
    (hb : b ∈ xs) (hne : a ≠ b) : Ahead (xs.mergeSort (atMost rank)) a b
      ↔ rank a < rank b ∨ rank a = rank b ∧ Ahead xs a b := by
  have hperm := List.mergeSort_perm xs (atMost rank)
  have hnodup' : (xs.mergeSort (atMost rank)).Nodup :=
    hperm.nodup_iff.mpr hnodup
  have hkeeps : ∀ {c d : α}, rank c ≤ rank d → Ahead xs c d →
      Ahead (xs.mergeSort (atMost rank)) c d := fun hle hcd =>
    List.pair_sublist_mergeSort (atMost_trans rank) (atMost_total rank)
      (decide_eq_true hle) hcd
  have hsorted : ∀ {c d : α}, Ahead (xs.mergeSort (atMost rank)) c d →
      rank c ≤ rank d :=
    fun hcd => List.pairwise_iff_forall_sublist.mp
      (sorted_mergeSort rank xs) hcd
  constructor
  · intro hahead
    refine (Nat.lt_or_eq_of_le (hsorted hahead)).imp_right fun heq => ⟨heq, ?_⟩
    refine (ahead_total ha hb hne).resolve_right fun hback => ?_
    exact not_ahead hnodup' hahead (hkeeps (Nat.le_of_eq heq.symm) hback)
  · rintro (hlt | ⟨heq, hahead⟩)
    · refine (ahead_total (hperm.mem_iff.mpr ha) (hperm.mem_iff.mpr hb)
        hne).resolve_right ?_
      exact fun hback => absurd (hsorted hback) (Nat.not_le.mpr hlt)
    · exact hkeeps (Nat.le_of_eq heq) hahead

-- ==================================================================== one key

/-- Whether one item comes before another by what they have. -/
def comesBefore (value : α → Value) (a b : α) : Checked Bool :=
  match Value.related? .less (value a) (value b) with
  | some less => .ok less
  | none => .error (.slip .type)

/-- Items sorted by what they have, one way or the other. -/
def arrangeBy (value : α → Value) (way : Sorting) (xs : List α) :
    Checked (List α) :=
  match way with
  | .ascending => sort (comesBefore value) xs
  | .descending => (sort (comesBefore value) xs.reverse).map List.reverse

/-- The one value comes ahead of the other on this way. -/
def puts : Sorting → Value → Value → Bool
  | .ascending, v, w => holds .less v w
  | .descending, v, w => holds .less w v

variable {value : α → Value}

private theorem ranks_comesBefore (h : Value.Ordered (xs.map value)) :
    Ranks (comesBefore value)
      (fun a => Value.rank (xs.map value) (value a)) xs := by
  intro a ha b hb
  unfold comesBefore
  rw [h.related?_less (List.mem_map_of_mem ha) (List.mem_map_of_mem hb)]

private theorem arrangeBy_perm (value : α → Value) (way : Sorting)
    (xs : List α) :
    Yields (arrangeBy value way xs) fun out => out.Perm xs := by
  cases way with
  | ascending => exact sort_perm _ xs
  | descending =>
      refine (sort_perm (comesBefore value) xs.reverse).bind fun out hout =>
        yields_pure ?_
      exact (List.reverse_perm out).trans (hout.trans (List.reverse_perm xs))

/-- One key decides, and leaves what it does not decide. -/
private theorem arrangeBy_ordered (hnodup : xs.Nodup)
    (h : Value.Ordered (xs.map value)) (way : Sorting) :
    ∃ ys, arrangeBy value way xs = .ok ys ∧ ∀ a ∈ xs, ∀ b ∈ xs, a ≠ b →
      (Ahead ys a b ↔ puts way (value a) (value b) = true
        ∨ (value a).equal (value b) = true ∧ Ahead xs a b) := by
  have hranks := ranks_comesBefore h
  have hmem : ∀ {a : α}, a ∈ xs → value a ∈ xs.map value := List.mem_map_of_mem
  cases way with
  | ascending =>
      refine ⟨_, sort_eq hranks, fun a ha b hb hne => ?_⟩
      rw [ahead_mergeSort hnodup ha hb hne, puts,
        h.holds_less (hmem ha) (hmem hb), h.equal_iff (hmem ha) (hmem hb)]
  | descending =>
      have hback : Ranks (comesBefore value)
          (fun a => Value.rank (xs.map value) (value a)) xs.reverse :=
        hranks.subset (List.reverse_subset.mpr (List.Subset.refl xs))
      refine ⟨_, congrArg (Except.map List.reverse) (sort_eq hback),
        fun a ha b hb hne => ?_⟩
      rw [ahead_reverse, ahead_mergeSort (List.nodup_reverse.mpr hnodup)
        (List.mem_reverse.mpr hb) (List.mem_reverse.mpr ha) hne.symm,
        ahead_reverse, puts, h.holds_less (hmem hb) (hmem ha),
        h.equal_iff (hmem ha) (hmem hb), eq_comm]

-- =============================================================== several keys

/-- Items sorted by what they have under every name, by the last one first. -/
def arrange (value : Value → α → Value) :
    List (Value × Sorting) → List α → Checked (List α)
  | [], xs => .ok xs
  | key :: keys, xs => do
      arrangeBy (value key.1) key.2 (← arrange value keys xs)

/-- The first name under which the two differ puts the one ahead. -/
def Precedes (value : Value → α → Value) (a b : α) :
    List (Value × Sorting) → Prop
  | [] => False
  | key :: keys => puts key.2 (value key.1 a) (value key.1 b) = true
      ∨ (value key.1 a).equal (value key.1 b) = true ∧ Precedes value a b keys

/-- The two are alike under every name. -/
def Tied (value : Value → α → Value) (a b : α)
    (keys : List (Value × Sorting)) : Prop :=
  ∀ key ∈ keys, (value key.1 a).equal (value key.1 b) = true

variable {value : Value → α → Value} {key : Value × Sorting}
  {keys : List (Value × Sorting)}

private theorem precedes_cons : Precedes value a b (key :: keys) ↔
    puts key.2 (value key.1 a) (value key.1 b) = true
      ∨ (value key.1 a).equal (value key.1 b) = true ∧
      Precedes value a b keys := Iff.rfl

private theorem tied_cons : Tied value a b (key :: keys) ↔
    (value key.1 a).equal (value key.1 b) = true ∧ Tied value a b keys :=
      List.forall_mem_cons

theorem arrange_perm (value : Value → α → Value)
    (keys : List (Value × Sorting)) (xs : List α) :
    Yields (arrange value keys xs) fun out => out.Perm xs := by
  induction keys with
  | nil => exact yields_pure (.refl _)
  | cons key keys ih =>
      refine ih.bind fun sorted hsorted => ?_
      exact (arrangeBy_perm _ key.2 sorted).mono fun out hout =>
        hout.trans hsorted

/-- Items that stand by the first name in which they differ, and as before if
they differ in none. -/
structure Arranged (value : Value → α → Value) (keys : List (Value × Sorting))
    (xs ys : List α) :
    Prop where
  perm : ys.Perm xs
  ahead : ∀ a ∈ xs, ∀ b ∈ xs, a ≠ b →
    (Ahead ys a b ↔ Precedes value a b keys ∨
      Tied value a b keys ∧ Ahead xs a b)

/-- Items can be sorted so if they have values in one order under every
name. -/
theorem arrange_ordered (hnodup : xs.Nodup)
    (h : ∀ key ∈ keys, Value.Ordered (xs.map (value key.1))) :
    ∃ ys, arrange value keys xs = .ok ys ∧ Arranged value keys xs ys := by
  induction keys with
  | nil =>
      refine ⟨xs, rfl, .refl _, fun a _ b _ _ => ?_⟩
      exact ⟨fun hahead => .inr ⟨fun _ hkey => (nomatch hkey), hahead⟩,
          fun hor =>
        hor.elim False.elim And.right⟩
  | cons key keys ih =>
      obtain ⟨ys, hys, hperm, hahead⟩ :=
        ih fun k hk => h k (List.mem_cons_of_mem _ hk)
      have hkey : Value.Ordered (ys.map (value key.1)) :=
        (h key List.mem_cons_self).subset (hperm.map _).subset
      obtain ⟨zs, hzs, hfirst⟩ :=
        arrangeBy_ordered (hperm.nodup_iff.mpr hnodup) hkey key.2
      have hall : arrange value (key :: keys) xs = .ok zs := by
        unfold arrange
        rw [hys]
        exact hzs
      refine ⟨zs, hall, (arrangeBy_perm _ _ _ zs hzs).trans hperm,
        fun a ha b hb hne => ?_⟩
      rw [hfirst a (hperm.mem_iff.mpr ha) b (hperm.mem_iff.mpr hb) hne,
        hahead a ha b hb hne, precedes_cons, tied_cons, and_or_left,
        or_assoc, and_assoc]

end Sorting

end GraphMapper

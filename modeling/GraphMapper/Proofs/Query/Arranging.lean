/-
What a query makes of what it selects.

The steps behind a selection make a row of each element, sort the rows and cut
them. Since rows have what they are sorted by from their elements, the elements
can be sorted in place of the rows (`sortAll_map`), and cut as well. So a query
gives the rows of a part of what is selected, in the order that is asked for,
whatever else the rows hold (`evaluate_arranged`).

# Elements in the place of rows

Sorting sees no more of a row than what stands under the keys of the order, and
a row has there what its element has (`Graph.read_row`). So sorting rows is
sorting elements, by naturality (`sort_map`), and it does not matter which
other keys the rows were asked for.

Main statement: `evaluate_arranged`.

Chain: `Sorting.Naturality` and `Sorting.Lexicographic` for sorting,
`Graph.Columns` for what a row has; `Connector.Arranged` has the read.
-/
import GraphMapper.Proofs.Graph.Columns
import GraphMapper.Proofs.Query.Paging
import GraphMapper.Proofs.Sorting.Lexicographic
import GraphMapper.Proofs.Sorting.Naturality

namespace GraphMapper

namespace Graph

open GraphMapper.Sorting

variable {α : Type} {g : Graph} {item : α → Item} {xs : List α}

-- ==================================================================== sorting

/-- An item is read by a key as the thing that it stands for has it, where
nothing counts as null. -/
def Reads (g : Graph) (key : Value) (item : Item) (v : Value) : Prop :=
  ∃ found, g.read key item = .ok found ∧ found.getD .null = v

/-- Sorting items by one key is sorting what they stand for by what is read of
them. -/
private theorem sortBy_map {key : Value × Sorting} {value : α → Value}
    (hread : ∀ x ∈ xs, g.Reads key.1 (item x) (value x)) :
    g.sortBy key (xs.map item)
      = (arrangeBy value key.2 xs).map (List.map item) := by
  -- sorting the paired list is sorting by the value alone
  let keyed (x : α) : Value × Item := (value x, item x)
  have hkeyed : ((xs.map item).mapM fun item => do
        .ok ((← g.read key.1 item).getD Value.null, item))
            = Except.ok (ε := Failure) (xs.map keyed) := by
    rw [List.mapM_map]
    refine mapM_eq_ok fun x hx => ?_
    obtain ⟨found, hfound, hv⟩ := hread x hx
    rw [Function.comp_apply, hfound]
    exact congrArg (fun v => Except.ok (v, item x)) hv
  have hback : ∀ ys : List α, (ys.map keyed).map (·.2) = ys.map item :=
    fun ys => List.map_map
  have hless : (fun x y => before (keyed x) (keyed y)) = comesBefore value :=
    rfl
  unfold sortBy arrangeBy
  rw [hkeyed]
  cases key.2 with
  | ascending =>
      show (sort before (xs.map keyed) >>= fun out =>
        Except.ok (out.map (·.2)))
            = (sort (comesBefore value) xs).map (List.map item)
      rw [sort_map, hless]
      cases sort (comesBefore value) xs with
      | error e => rfl
      | ok ys => exact congrArg Except.ok (hback ys)
  | descending =>
      show (sort before (xs.map keyed).reverse >>= fun out =>
        Except.ok (out.reverse.map (·.2)))
            = ((sort (comesBefore value) xs.reverse).map List.reverse).map
              (List.map item)
      rw [← List.map_reverse, sort_map, hless]
      cases sort (comesBefore value) xs.reverse with
      | error e => rfl
      | ok ys =>
          show Except.ok (((ys.map keyed).reverse).map (·.2))
              = Except.ok (ys.reverse.map item)
          rw [← List.map_reverse, hback]

/-- And so it is with several keys. -/
theorem sortAll_map {toKey : Value → Value} {order : List (Value × Sorting)}
    {value : Value → α → Value}
    (hread : ∀ e ∈ order, ∀ x ∈ xs,
      g.Reads (toKey e.1) (item x) (value e.1 x)) :
    g.sortAll (order.map fun e => (toKey e.1, e.2)) (xs.map item)
      = (arrange value order xs).map (List.map item) := by
  induction order with
  | nil => rfl
  | cons e order ih =>
      have hrest := ih fun d hd => hread d (List.mem_cons_of_mem _ hd)
      show (g.sortAll (order.map _) (xs.map item) >>= fun sorted =>
        g.sortBy (toKey e.1, e.2) sorted)
            = Except.map _ (arrange value order xs >>= fun ys =>
              arrangeBy (value e.1) e.2 ys)
      rw [hrest, map_bind]
      cases hys : arrange value order xs with
      | error failure => rfl
      | ok ys =>
          have hsub : ys ⊆ xs := (arrange_perm _ order xs ys hys).subset
          exact sortBy_map fun x hx => hread e List.mem_cons_self x (hsub hx)

end Graph

namespace Query

variable {α β : Type} {m : Model}

-- ======================================================================= cuts

/-- What is left behind as many items as a bound says, if it is given. -/
def dropped (bound : Option Value) (xs : List α) : List α :=
  xs.drop ((bound.bind Value.natural?).getD 0)

/-- At most as many items as a bound says, if it is given. -/
def taken (bound : Option Value) (xs : List α) : List α :=
  match bound.bind Value.natural? with
  | some n => xs.take n
  | none => xs

/-- The part that a plan asks for. -/
def Plan.window (p : Plan) (xs : List α) : List α :=
  taken p.limit (dropped p.skip xs)

private theorem Plan.window_map (p : Plan) (f : α → β) (xs : List α) :
    p.window (xs.map f) = (p.window xs).map f := by
  unfold window taken dropped
  split <;> simp

theorem Plan.window_sublist (p : Plan) (xs : List α) :
    (p.window xs).Sublist xs := by
  unfold window taken dropped
  split
  · exact (List.take_sublist _ _).trans (List.drop_sublist _ _)
  · exact List.drop_sublist _ _

private theorem natural?_eq_some {v : Value} {n : Nat}
    (h : v.natural? = some n) : v = .int n := by
  unfold Value.natural? at h
  split at h
  · split at h
    · next hi => rw [← Option.some.inj h, Int.toNat_of_nonneg hi]
    · cases h
  · cases h

/-- A bound that is accepted is a natural number, if it is given. -/
theorem bound_eq_ok {name : String} {v : Value} {b : Option Value}
    (h : bound name v = .ok b) :
    b = none ∨ ∃ n : Nat, b = some (.int n) := by
  unfold bound at h
  split at h
  · exact .inl (Except.ok.inj h).symm
  · split at h
    · next n hn =>
      rw [← Except.ok.inj h, natural?_eq_some hn]
      exact .inr ⟨n, rfl⟩
    · cases h

end Query

namespace Graph

open Run Query

variable {m : Model} {g : Graph} {order : List (Value × Sorting)}

/-- Behind a traversal a cut leaves a part of what it gives. -/
private theorem evaluate_cut {name : StepName}
    (cut : Option Int → List Item → List Item) {part : List Item → List Item}
    {b : Option Value} (hby : name ≠ .orderBy) (hto : name ≠ .to)
    (hname : ∀ (n : Nat) items, (run .plain [.call name [.int n]] items).on g
      = (.ok (cut (some n) items), g))
    (hpart : ∀ items, part items = match b.bind Value.natural? with
      | some n => cut (some (n : Int)) items
      | none => items)
    (hb : b = none ∨ ∃ n : Nat, b = some (.int n))
    {steps : List Step} {out : Checked (List Item)}
    (hgo : g.evaluate steps = (out, g)) :
    g.evaluate (steps ++ cuts name b) = (out.map part, g) := by
  rcases hb with rfl | ⟨n, rfl⟩
  · have hnone : part = id := funext hpart
    rw [show cuts name none = [] from rfl, List.append_nil, hgo, hnone]
    cases out <;> rfl
  · rw [show cuts name (some (.int n)) = [.call name [.int n]] from rfl,
      evaluate_append hby hto, on_bind]
    rw [show (run .plain steps [.start]).on g = (out, g) from hgo]
    cases out with
    | error e => rfl
    | ok items =>
        have hnatural : ((some (Value.int n)).bind Value.natural?)
            = some n := by
          simp [Value.natural?]
        show (run .plain [.call name [.int n]] items).on g
            = (Except.ok (part items), g)
        rw [hname, hpart, hnatural]

private theorem slicePlace_natCast (length n : Nat) :
    slicePlace length (n : Int) = n := by
  unfold slicePlace
  rw [if_pos (Int.natCast_nonneg n), Int.toNat_natCast]

/-- So do both cuts of a plan. -/
private theorem evaluate_window {p : Plan}
    (hskip : p.skip = none ∨ ∃ n : Nat, p.skip = some (.int n))
    (hlimit : p.limit = none ∨ ∃ n : Nat, p.limit = some (.int n))
    {steps : List Step} {out : Checked (List Item)}
    (hgo : g.evaluate steps = (out, g)) :
    g.evaluate (steps ++ cuts .skip p.skip ++ cuts .limit p.limit)
      = (out.map p.window, g) := by
  have hfirst : g.evaluate (steps ++ cuts .skip p.skip)
      = (out.map (dropped p.skip), g) := by
    refine evaluate_cut skip (by decide) (by decide) (fun _ _ => rfl)
      (fun items => ?_) hskip hgo
    unfold dropped skip
    cases p.skip.bind Value.natural? with
    | none => rfl
    | some n => simp only [slicePlace_natCast, Option.getD_some]
  have hboth : g.evaluate (steps ++ cuts .skip p.skip ++ cuts .limit p.limit)
      = ((out.map (dropped p.skip)).map (taken p.limit), g) := by
    refine evaluate_cut limit (by decide) (by decide) (fun _ _ => rfl)
      (fun items => ?_) hlimit hfirst
    unfold taken limit
    cases p.limit.bind Value.natural? with
    | none => rfl
    | some n => simp only [slicePlace_natCast]
  rw [hboth]
  cases out <;> rfl

-- =================================================================== the rows

private theorem sortKeys_orderBy (order : List (Value × Sorting)) :
    sortKeys (order.map fun e =>
      .call .orderBy [m.conditionKey e.1, .symbol (.sorting e.2)])
          = .ok (order.map fun e => (m.conditionKey e.1, e.2)) := by
  induction order with
  | nil => rfl
  | cons e order ih =>
      simp only [List.map_cons, sortKeys, sortKey, ih, bind, Except.bind]

/-- The steps of an order sort by its keys. -/
private theorem on_sorting (items : List Item) :
    (run .plain (sorting m order) items).on g
      = (g.sortAll (order.map fun e => (m.conditionKey e.1, e.2)) items,
        g) := by
  unfold sorting
  cases order with
  | nil => rfl
  | cons e order =>
      rw [if_neg (by simp)]
      show (Run.ask (fun g => do
          g.sortAll (← sortKeys ((e :: order).map _)) items) >>= fun sorted =>
        run .sorted ((e :: order).map _) sorted).on g = _
      have hbehind : ∀ sorted, run .sorted ((e :: order).map fun e =>
          .call .orderBy [m.conditionKey e.1, .symbol (.sorting e.2)]) sorted
              = pure sorted := by
        refine run_orderBy _ fun step hstep => ?_
        obtain ⟨d, -, rfl⟩ := List.mem_map.mp hstep
        exact ⟨_, rfl⟩
      rw [on_bind, on_ask, sortKeys_orderBy]
      simp only [hbehind, bind, Except.bind]
      cases g.sortAll ((e :: order).map fun e => (m.conditionKey e.1, e.2))
        items <;> rfl

/-- What an element is sorted by. -/
def sortValue (m : Model) (g : Graph) (name : Value) (k : Handle) : Value :=
  ((g.element k).at? (m.conditionKey name)).getD .null

/-- The row of an element, if it has one. -/
def shown (g : Graph) (keys : List Value) (k : Handle) : Entries :=
  (g.rowOf keys k).toOption.getD []

theorem rowOf_eq_shown {keys : List Value} {k : Handle} {row : Entries}
    (h : g.rowOf keys k = .ok row) : row = g.shown keys k := by
  unfold shown
  rw [h]
  rfl

/-- The properties of the element are a mapping, and none is put in the place
of the id. -/
structure Tidy (g : Graph) (k : Handle) : Prop where
  mapping : Entries.IsMapping (g.element k).props
  id : ∀ p ∈ (g.element k).props, p.1 ≠ .idKey

/-- A query gives the rows of a part of the selected elements in order, if all
of them have rows and can be sorted. -/
theorem evaluate_arranged {p : Plan} {keys : List Value} {ks : List Handle}
    (hskip : p.skip = none ∨ ∃ n : Nat, p.skip = some (.int n))
    (hlimit : p.limit = none ∨ ∃ n : Nat, p.limit = some (.int n))
    (hselected : g.evaluate p.selected = (.ok (ks.map .element), g))
    (htidy : ∀ k ∈ ks, g.Tidy k) (horder : ∀ e ∈ p.order, m.Reaches keys e.1) :
    g.evaluate (p.selected ++ .call .elementMap keys ::
        (sorting m p.order ++ cuts .skip p.skip ++ cuts .limit p.limit))
      = (ks.mapM (g.rowOf keys) >>= fun _ =>
          (Sorting.arrange (sortValue m g) p.order ks).map fun sorted =>
            (p.window sorted).map fun k => .row (g.shown keys k), g) := by
  -- up to the sorting; the window is cut afterwards
  have hrows :
      g.evaluate (p.selected ++ .call .elementMap keys :: sorting m p.order)
        = (ks.mapM (g.rowOf keys) >>= fun _ =>
          (Sorting.arrange (sortValue m g) p.order ks).map (List.map fun k =>
            .row (g.shown keys k)), g) := by
    rw [evaluate_append (by decide) (by decide), on_bind]
    rw [show (run .plain p.selected [.start]).on g
        = (.ok (ks.map .element), g) from hselected]
    dsimp only
    rw [on_elementMap]
    cases hmade : ks.mapM (g.rowOf keys) with
    | error e => rfl
    | ok rows =>
        have hall : ∀ k ∈ ks, g.rowOf keys k = .ok (g.shown keys k) := by
          intro k hk
          have hok : (g.rowOf keys k).isOk = true := by
            have hevery := isOk_mapM (g.rowOf keys) ks
            rw [hmade] at hevery
            exact List.all_eq_true.mp hevery.symm k hk
          obtain ⟨row, hrow⟩ := exists_of_isOk hok
          rw [hrow, rowOf_eq_shown hrow]
        have heq : rows.map Item.row
            = ks.map fun k => .row (g.shown keys k) := by
          rw [mapM_eq_ok hall] at hmade
          rw [← Except.ok.inj hmade, List.map_map]
          rfl
        dsimp only
        have hread : ∀ e ∈ p.order, ∀ k ∈ ks,
            g.Reads (m.conditionKey e.1) (.row (g.shown keys k))
              (sortValue m g e.1 k) := fun e he k hk =>
          ⟨_, read_row (htidy k hk).mapping (htidy k hk).id (horder e he)
            (hall k hk), rfl⟩
        rw [heq, on_sorting, sortAll_map hread]
        rfl
  have hgroup : p.selected ++ .call .elementMap keys ::
      (sorting m p.order ++ cuts .skip p.skip ++ cuts .limit p.limit)
      = (p.selected ++ .call .elementMap keys :: sorting m p.order)
        ++ cuts .skip p.skip
        ++ cuts .limit p.limit := by simp
  rw [hgroup, evaluate_window hskip hlimit hrows]
  cases ks.mapM (g.rowOf keys) with
  | error e => rfl
  | ok rows =>
      show ((Sorting.arrange _ p.order ks).map _ |>.map p.window, g) = _
      cases Sorting.arrange (sortValue m g) p.order ks with
      | error e => rfl
      | ok sorted =>
          exact congrArg (fun items => (Except.ok items, g))
            (p.window_map _ sorted)

end Graph

end GraphMapper

/-
What a query is built of.

Everything that a filter asks for is checked before the first step but the
names of the fields to be read and to be sorted by, which may be no keys
(`plan`, `filtered_eq`). Whatever is asked for, a query selects, makes a row of
each element that it has selected, sorts the rows if there is an order, and
cuts them (`traversalFrom_filtered`). Each entry of an order becomes one step,
under the key that a condition on the same field would have
(`traversalFrom_order`).

# The two places to fail

A plan is what has been checked before the first step: the filter, the names in
the order, the bounds. What is left are names that are looked up when the steps
are appended, and they fail one after the other behind what has been appended
already. So the steps of a query are told by an equation between builders, with
its failures in their places.

Chain: `Query.Updating` for builders in general; `Query.Paging` and
`Query.Arranging` go on with the plan.
-/
import GraphMapper.Proofs.Query.Updating
import GraphMapper.Proofs.Query.Whole

namespace GraphMapper

namespace Order

variable {s field way : String} {d : Sorting}

/-- A text of one word names a field. -/
theorem parseEntry_of_word (h : Text.words s = [field]) :
    parseEntry (.text s) = .ok (.text field, .ascending) := by
  show ofWords (.text s) (Text.words s) = _
  rw [h, ofWords]

/-- A second word tells the direction. -/
theorem parseEntry_of_words (h : Text.words s = [field, way])
    (hway : direction? way = some d) :
    parseEntry (.text s) = .ok (.text field, d) := by
  show ofWords (.text s) (Text.words s) = _
  rw [h, ofWords, hway]

end Order

namespace Query

open Build

variable {m : Model} {es : Entries} {start steps : List Step}

-- ================================================================ the plan

/-- The order that a filter asks for. -/
def orderOf (es : Entries) : Checked (List (Value × Sorting)) :=
  let ordering := Entries.field "order" es
  if ordering.isGiven then Order.parse ordering else .ok []

/-- What a filter asks for, as far as that is checked before the first step. -/
structure Plan where
  /-- The fields to be read. -/
  names : List Value
  order : List (Value × Sorting)
  skip : Option Value
  limit : Option Value
  selected : List Step

def plan (m : Model) (es : Entries) : Checked Plan := do
  let fields ← Projection.fields es
  let order ← orderOf es
  checkOrder order fields
  let skip ← bound "skip" (Entries.field "skip" es)
  let limit ← bound "limit" (Entries.field "limit" es)
  let selected ← Filter.select m (Entries.field "where" es)
  .ok ⟨fields.getD m.fieldNames, order, skip, limit, selected⟩

/-- What follows the selection. -/
def reading (m : Model) (p : Plan) : Build Unit := do
  Build.step .elementMap (← Build.check (storageKeys m p.names))
  if !p.order.isEmpty then
    Build.step .order []
    p.order.forM (orderStep m)
  boundStep .skip p.skip
  boundStep .limit p.limit

theorem filtered_eq (m : Model) (es : Entries) : filtered m es = (do
    let p ← Build.check (plan m es)
    append p.selected
    reading m p) := by
  unfold filtered plan
  rw [check_bind, bind_assoc]
  refine bind_congr fun fields => ?_
  rw [check_bind, bind_assoc]
  refine bind_congr fun order => ?_
  rw [check_bind, bind_assoc]
  refine bind_congr fun _ => ?_
  rw [check_bind, bind_assoc]
  refine bind_congr fun skip => ?_
  rw [check_bind, bind_assoc]
  refine bind_congr fun limit => ?_
  rw [check_bind, bind_assoc]
  unfold select
  rw [bind_assoc]
  rfl

-- ============================================================== its traversal

/-- The steps that sort by an order, if it says anything. -/
def sorting (m : Model) (order : List (Value × Sorting)) : List Step :=
  if order.isEmpty then []
  else .call .order [] :: order.map fun e =>
    .call .orderBy [m.conditionKey e.1, .symbol (.sorting e.2)]

/-- The key that a field is sorted by, if it has one. -/
def sortKey (m : Model) (name : Value) : Checked Value :=
  if name.equal m.idField then .ok .idKey else keyOf m name

private theorem sortKey_eq_ok {name key : Value}
    (h : sortKey m name = .ok key) : key = m.conditionKey name := by
  unfold sortKey at h
  unfold Model.conditionKey
  split at h
  · next hid =>
    rw [if_pos hid]
    exact (Except.ok.inj h).symm
  · next hid =>
    rw [if_neg hid]
    unfold keyOf at h
    cases hcolumn : m.columnOf name with
    | error failure =>
        rw [hcolumn] at h
        cases h
    | ok column =>
        rw [hcolumn] at h
        exact (Except.ok.inj h).symm

/-- Each entry of an order becomes one step, under the key of its field. -/
theorem traversalFrom_order (start : List Step)
    (order : List (Value × Sorting)) :
    traversalFrom start (order.forM (orderStep m)) = (do
      let _ ← order.mapM fun e => sortKey m e.1
      .ok (start ++ order.map fun e =>
        .call .orderBy [m.conditionKey e.1, .symbol (.sorting e.2)])) := by
  induction order generalizing start with
  | nil => exact congrArg Except.ok (List.append_nil start).symm
  | cons e order ih =>
      show traversalFrom start ((check (sortKey m e.1) >>= fun key =>
        step .orderBy [key, .symbol (.sorting e.2)]) >>= fun _ =>
          order.forM (orderStep m)) = _
      rw [List.mapM_cons, bind_assoc, traversalFrom_check_bind]
      cases hkey : sortKey m e.1 with
      | error failure => rfl
      | ok key =>
          show traversalFrom start (step .orderBy [key, _] >>= _) = _
          rw [traversalFrom_step_bind, ih, sortKey_eq_ok hkey]
          cases order.mapM fun e => sortKey m e.1 with
          | error failure => rfl
          | ok keys =>
              show Except.ok _ = Except.ok _
              rw [List.append_assoc]
              rfl

private theorem traversalFrom_boundStep (name : StepName)
    (bound : Option Value) (steps : List Step) :
    traversalFrom steps (boundStep name bound)
      = .ok (steps ++ cuts name bound) := by
  unfold traversalFrom
  rw [runFrom_boundStep]

private theorem traversalFrom_cuts (skip limit : Option Value)
    (steps : List Step) : traversalFrom steps (do
      boundStep .skip skip
      boundStep .limit limit)
          = .ok (steps ++ cuts .skip skip ++ cuts .limit limit) := by
  rw [traversalFrom_then, traversalFrom_boundStep]
  exact traversalFrom_boundStep .limit limit _

/-- Rows are made, sorted and cut, unless a name is no key. -/
theorem traversalFrom_reading (start : List Step) (p : Plan) :
    traversalFrom start (reading m p) = (do
      let keys ← storageKeys m p.names
      let _ ← p.order.mapM fun e => sortKey m e.1
      .ok (start ++ .call .elementMap keys ::
        (sorting m p.order ++ cuts .skip p.skip ++ cuts .limit p.limit))) := by
  unfold reading
  rw [traversalFrom_check_bind]
  congr 1
  funext keys
  rw [traversalFrom_step_bind]
  unfold sorting
  cases horder : p.order with
  | nil =>
      show traversalFrom _ (boundStep .skip p.skip >>= fun _ =>
        boundStep .limit p.limit) = _
      rw [traversalFrom_cuts]
      simp [pure, Except.pure, bind, Except.bind]
  | cons e order =>
      show traversalFrom _ (step .order [] >>= fun _ =>
          (e :: order).forM (orderStep m) >>= fun _ =>
        boundStep .skip p.skip >>= fun _ => boundStep .limit p.limit) = _
      rw [traversalFrom_step_bind, traversalFrom_then, traversalFrom_order]
      cases (e :: order).mapM fun e => sortKey m e.1 with
      | error failure => rfl
      | ok sortKeys =>
          show traversalFrom _ (boundStep .skip p.skip >>= fun _ =>
            boundStep .limit p.limit) = _
          rw [traversalFrom_cuts]
          show Except.ok _ = Except.ok _
          simp

/-- A query selects, makes rows of what it has selected, and sorts and cuts
these. -/
theorem traversalFrom_filtered (start : List Step) (es : Entries) :
    traversalFrom start (filtered m es) = (do
      let p ← plan m es
      let keys ← storageKeys m p.names
      let _ ← p.order.mapM fun e => sortKey m e.1
      .ok (start ++ p.selected ++ .call .elementMap keys ::
        (sorting m p.order ++ cuts .skip p.skip ++ cuts .limit p.limit))) := by
  rw [filtered_eq, traversalFrom_check_bind]
  congr 1
  funext p
  rw [traversalFrom_append_bind, traversalFrom_reading]

/-- What a plan holds, part by part. -/
theorem plan_eq_ok {p : Plan} (h : plan m es = .ok p) : ∃ fields,
    Projection.fields es = .ok fields ∧ p.names = fields.getD m.fieldNames ∧
    orderOf es = .ok p.order ∧ checkOrder p.order fields = .ok () ∧
    bound "skip" (Entries.field "skip" es) = .ok p.skip ∧
    bound "limit" (Entries.field "limit" es) = .ok p.limit ∧
    Filter.select m (Entries.field "where" es) = .ok p.selected := by
  obtain ⟨fields, hfields, h⟩ := bind_eq_ok h
  obtain ⟨order, horder, h⟩ := bind_eq_ok h
  obtain ⟨_, hcheck, h⟩ := bind_eq_ok h
  obtain ⟨skip, hskip, h⟩ := bind_eq_ok h
  obtain ⟨limit, hlimit, h⟩ := bind_eq_ok h
  obtain ⟨selected, hselect, h⟩ := bind_eq_ok h
  rw [← Except.ok.inj h]
  exact ⟨fields, hfields, rfl, horder, hcheck, hskip, hlimit, hselect⟩

/-- The parts of a query that is built. -/
theorem filtered_eq_ok (h : traversalFrom start (filtered m es) = .ok steps) :
    ∃ order selected keys skip limit, orderOf es = .ok order ∧
      bound "skip" (Entries.field "skip" es) = .ok skip ∧
      bound "limit" (Entries.field "limit" es) = .ok limit ∧
      Filter.select m (Entries.field "where" es) = .ok selected ∧
      steps = start ++ selected ++ .call .elementMap keys ::
        (sorting m order ++ cuts .skip skip ++ cuts .limit limit) := by
  rw [traversalFrom_filtered] at h
  obtain ⟨p, hp, h⟩ := bind_eq_ok h
  obtain ⟨keys, -, h⟩ := bind_eq_ok h
  obtain ⟨_, -, h⟩ := bind_eq_ok h
  obtain ⟨-, -, -, horder, -, hskip, hlimit, hselect⟩ := plan_eq_ok hp
  exact ⟨p.order, p.selected, keys, p.skip, p.limit, horder, hskip, hlimit,
    hselect, (Except.ok.inj h).symm⟩

end Query

end GraphMapper

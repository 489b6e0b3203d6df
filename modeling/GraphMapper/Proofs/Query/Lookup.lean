/-
Operations on filters that select alike.

If the selections of two filters can stand for each other in front of any
steps, then operations that differ in nothing but the filter do the same with
the graph: they are refused alike, or built, and then come to the same result
and leave the same graph (`Build.AlikeOn`). A replacement always goes by an id;
it is put in general form here, for any filter (`Query.replaceBy`).

# Failing alike

Two builders may fail at different places and still be alike, since a failure
leaves nothing to be submitted. So what has to agree is the failure itself,
and, where nothing fails, what the traversals do with this graph, not the
traversals.

Chain: `Filter.Lookup` has the two selections that this is for;
`Connector.Lookup` concludes it for graphs that calls bring about.
-/
import GraphMapper.Proofs.Filter.Lookup
import GraphMapper.Proofs.Query.Leftover
import GraphMapper.Proofs.Query.Paging

namespace GraphMapper

namespace Build

variable {g : Graph} {α : Type} {b b' b'' : Build Unit}

/-- What is built does the same with the graph, and what is not built fails the
same way. -/
def AlikeOn (g : Graph) (b b' : Build Unit) : Prop :=
  (traversalFrom [] b).map g.evaluate = (traversalFrom [] b').map g.evaluate

/-- What is decided before the first step is decided alike. -/
private theorem alikeOn_check {c : Checked α} {k k' : α → Build Unit}
    (hk : ∀ a, AlikeOn g (k a) (k' a)) :
    AlikeOn g (check c >>= k) (check c >>= k') := by
  unfold AlikeOn
  rw [traversalFrom_check_bind, traversalFrom_check_bind]
  cases c with
  | error e => rfl
  | ok a => exact hk a

end Build

namespace Query

open Build

variable {m : Model} {g : Graph} {v w : Value}

/-- Whatever is put behind alike selections, the traversals do the same. -/
private theorem alikeOn_select (h : Filter.Interchanges m g v w)
    {k : Unit → Build Unit} (hk : Appends (k ())) :
    AlikeOn g (select m v >>= k) (select m w >>= k) := by
  obtain ⟨s, t, hs, ht, hst⟩ := h
  have hbehind : ∀ selected : List Step, traversalFrom ([] ++ selected) (k ())
      = (traversalFrom [] (k ())).map (selected ++ ·) :=
    fun selected => traversalFrom_eq_append hk selected
  unfold AlikeOn
  rw [traversalFrom_select_bind, traversalFrom_select_bind, hs, ht]
  show (traversalFrom ([] ++ s) (k ())).map g.evaluate
    = (traversalFrom ([] ++ t) (k ())).map g.evaluate
  rw [hbehind, hbehind]
  cases traversalFrom [] (k ()) with
  | error e => rfl
  | ok rest => exact congrArg Except.ok (hst rest)

-- ============================================================== operations

/-- A query with a filter in the place of its own. -/
def asking (filter : Value) (es : Entries) : Value :=
  .map (Entries.insert (.text "where") filter es)

private theorem filtered_parts (es : Entries) :
    filtered m es = (do
      let fields ← check (Projection.fields es)
      let order ← check (orderOf es)
      check (checkOrder order fields)
      let skip ← check (bound "skip" (Entries.field "skip" es))
      let limit ← check (bound "limit" (Entries.field "limit" es))
      select m (Entries.field "where" es)
      reading m ⟨fields.getD m.fieldNames, order, skip, limit, []⟩) := rfl

/-- What a query asks for beside its filter is what its other entries say. -/
private theorem query_asking (filter : Value) (es : Entries) :
    query m (asking filter es) = (do
      let fields ← check (Projection.fields es)
      let order ← check (orderOf es)
      check (checkOrder order fields)
      let skip ← check (bound "skip" (Entries.field "skip" es))
      let limit ← check (bound "limit" (Entries.field "limit" es))
      select m filter
      reading m ⟨fields.getD m.fieldNames, order, skip, limit, []⟩) := by
  have hother : ∀ key : String, key ≠ "where" →
      Entries.field key (Entries.insert (.text "where") filter es)
        = Entries.field key es :=
    fun key hkey => field_insert_of_ne hkey filter
  have hfields : Projection.fields (Entries.insert (.text "where") filter es)
      = Projection.fields es := by
    unfold Projection.fields
    rw [hother _ (by decide)]
  have horder : orderOf (Entries.insert (.text "where") filter es)
      = orderOf es := by
    unfold orderOf
    rw [hother _ (by decide)]
  have hne : Entries.insert (.text "where") filter es ≠ [] := by
    cases es with
    | nil => exact List.cons_ne_nil _ _
    | cons e es =>
        unfold Entries.insert
        split <;> exact List.cons_ne_nil _ _
  unfold asking
  rw [query_given hne, filtered_parts, hfields, horder,
    hother "skip" (by decide), hother "limit" (by decide), field_insert_self]

/-- Everything that an element holds is dropped and a record written, for each
element that a filter lets through. -/
def replaceBy (m : Model) (filter record : Value) : Build Unit := do
  let data ← check (payload m record)
  select m filter
  append [clearing []]
  Record.write m (m.idField :: Reference.fields) data

theorem replace_eq_replaceBy (m : Model) (id record : Value) :
    replace m id record = replaceBy m (byId m id) record := rfl

section

variable (h : Filter.Interchanges m g v w)

include h

theorem alikeOn_query (es : Entries) :
    AlikeOn g (query m (asking v es)) (query m (asking w es)) := by
  rw [query_asking, query_asking]
  refine alikeOn_check fun fields => alikeOn_check fun order =>
    alikeOn_check fun _ => ?_
  refine alikeOn_check fun skip => alikeOn_check fun limit => ?_
  exact alikeOn_select h (appends_reading _)

theorem alikeOn_count : AlikeOn g (count m v) (count m w) :=
  alikeOn_select h (appends_step _ _)

theorem alikeOn_drop : AlikeOn g (drop m v) (drop m w) :=
  alikeOn_select h (appends_step _ _)

theorem alikeOn_replaceBy (record : Value) :
    AlikeOn g (replaceBy m v record) (replaceBy m w record) :=
  alikeOn_check fun _ =>
    alikeOn_select h ((appends_append _).bind fun _ => appends_write m _ _)

theorem alikeOn_update (record : Value) :
    AlikeOn g (update m v record) (update m w record) := by
  refine alikeOn_check fun data => alikeOn_check fun columns =>
    alikeOn_check fun entries => ?_
  exact alikeOn_select h ((appends_append _).bind fun _ => appends_step _ _)

end

end Query

end GraphMapper

/-
Queries for whole records.

Without a projection and an order a query selects, makes a row of each element
under the storage keys of the declared fields, and cuts the rows
(`query_whole`). For a model whose fields can be told apart these keys are
known (`storageKeys_fieldNames`). An empty filter selects all elements with the
label of the model (`evaluate_all`).

Here the label is looked at for the first time. The elements that bear it
(`bearers`) are in the order of the index, which is that of their insertion,
and nothing behind the selection changes this order unless it is asked to.

Chain: `Filter.Selection` for filters that say more; `Query.Sorting` has the
general form of a query, of which this is the one without options.
-/
import GraphMapper.Proofs.Filter.Selection
import GraphMapper.Proofs.Graph.Chaining
import GraphMapper.Proofs.Graph.Rows
import GraphMapper.Proofs.Model.Keys
import GraphMapper.Proofs.Query.Appending

namespace GraphMapper

namespace Query

open Build

variable {m : Model}

/-- The storage keys that the rows of a model are read under. -/
def readKeys (m : Model) : List Value := m.others.map Field.key

/-- Every declared field but the primary key is read under its storage key. -/
theorem storageKeys_fieldNames (h : m.Apart) :
    storageKeys m m.fieldNames = .ok (readKeys m) := by
  have hnames : m.fieldNames.filter (fun n => !n.equal m.idField)
      = m.others.map (·.name) := by
    unfold Model.fieldNames Model.others
    rw [List.filter_map]
    rfl
  have hkey : ∀ f ∈ m.others, keyOf m f.name = .ok f.key := by
    intro f hf
    have hmem := Model.mem_fields_of_others hf
    unfold keyOf
    rw [h.columnOf_name hmem, h.storageKey_name hmem]
    rfl
  unfold storageKeys readKeys
  rw [hnames, List.mapM_map]
  exact mapM_eq_ok hkey

/-- The step that a bound becomes, if it is given. -/
def cuts (name : StepName) (bound : Option Value) : List Step :=
  bound.toList.map fun n => .call name [n]

theorem runFrom_boundStep (name : StepName) (bound : Option Value)
    (steps : List Step) :
    (boundStep name bound).runFrom steps
      = (.ok (), steps ++ cuts name bound) := by
  cases bound with
  | none =>
      rw [show cuts name none = [] from rfl, List.append_nil]
      rfl
  | some n => rfl

theorem query_whole (h : m.Apart) {es : Entries} {selected : List Step}
    {skip limit : Option Value} (hgiven : es ≠ [])
    (hfields : Entries.field "fields" es = .null)
    (horder : Entries.field "order" es = .null)
    (hskip : bound "skip" (Entries.field "skip" es) = .ok skip)
    (hlimit : bound "limit" (Entries.field "limit" es) = .ok limit)
    (hselect : Filter.select m (Entries.field "where" es) = .ok selected) :
    traversalFrom [] (query m (.map es))
      = .ok (selected ++ .call .elementMap (readKeys m)
        :: (cuts .skip skip ++ cuts .limit limit)) := by
  have hmap : (Value.map es).isGiven = true := by
    cases es with
    | nil => exact absurd rfl hgiven
    | cons e es => rfl
  have hprojection : Projection.fields es = .ok none := by
    unfold Projection.fields
    rw [hfields]
  have hsort : (if (Entries.field "order" es).isGiven then
    Order.parse (Entries.field "order" es)
      else .ok []) = .ok [] := by
    rw [horder]
    rfl
  have hentries : (Value.map es).entries = .ok es := rfl
  unfold query
  rw [if_pos hmap]
  unfold traversalFrom filtered select
  simp only [hentries, runFrom_bind, runFrom_check, runFrom_append,
    runFrom_step, runFrom_boundStep, hprojection, hsort, checkOrder, hskip,
    hlimit, hselect, Option.getD_none, storageKeys_fieldNames h,
    List.isEmpty_nil, Bool.not_true, Bool.false_eq_true, if_false,
    List.nil_append, List.append_assoc, List.cons_append]

end Query

namespace Filter

open Run GraphMapper.Graph

variable {m : Model} {g : Graph}

/-- The elements of the model's kind with its label, in the order in which they
are stored. -/
def bearers (m : Model) (g : Graph) : List Handle :=
  ((stored m g).map (·.2)).filter fun h => (g.element h).label.equal m.label

/-- An empty filter has nothing but the label to select by. -/
theorem select_empty :
    select m (.map []) = .ok [source m [], labelled m.label] := rfl

/-- A row is made of each of them, or one of them has none. -/
theorem evaluate_rows (keys : List Value) :
    g.evaluate [source m [], labelled m.label, .call .elementMap keys]
      = match (bearers m g).mapM (g.rowOf keys) with
        | .ok rows => (.ok (rows.map .row), g)
        | .error e => (.error e, g) := by
  have hall : Graph.select (stored m g) [] = .ok ((stored m g).map (·.2)) :=
    rfl
  have hselected : (run .plain [source m [], labelled m.label] [.start]).on g
      = (.ok ((bearers m g).map .element), g) := evaluate_labelled hall
  have hbehind : run .plain
      ([source m [], labelled m.label] ++ [.call .elementMap keys]) [.start]
        = _ := run_append_step (by decide) (by decide) _ _ _ _
  refine (congrArg (fun r => r.on g) hbehind).trans
    ((on_bind_ok hselected).trans ?_)
  rw [on_elementMap]
  cases (bearers m g).mapM (g.rowOf keys) <;> rfl

theorem evaluate_all {keys : List Value} {rows : List Entries}
    (h : (bearers m g).mapM (g.rowOf keys) = .ok rows) :
    g.evaluate [source m [], labelled m.label, .call .elementMap keys]
      = (.ok (rows.map .row), g) := by
  rw [evaluate_rows, h]

end Filter

end GraphMapper

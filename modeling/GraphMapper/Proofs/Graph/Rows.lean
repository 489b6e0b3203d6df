/-
Rows of elements.

An `elementMap` step makes one row of each element that it gets, in order, or
fails with the first row that cannot be made (`on_elementMap`); it leaves the
graph. Rows reach the mapper as mappings, and each of them becomes a record of
its own (`present_rows`).

# What is kept of an element

A row has a handle no longer. Whatever is said of records below is therefore
said of rows that are made of known elements (`rowOf`), and a list of rows is
followed by the list of handles that it was made of.

Chain: `Graph.Running` for what leaves a graph as it is; `Query.Whole` and
`Result.Records` go on with the rows.
-/
import GraphMapper.Connector.Server
import GraphMapper.Proofs.Failure.Checked
import GraphMapper.Proofs.Graph.Running
import GraphMapper.Result.Normal
import Mathlib.Data.Set.List

namespace GraphMapper

namespace Graph

open Run

variable {g : Graph}

/-- The row of an element of the graph by its handle. -/
def rowOf (g : Graph) (keys : List Value) (h : Handle) : Checked Entries :=
  g.row keys (g.element h)

theorem rows_inj {rows rows' : List Entries}
    (h : rows.map Item.row = rows'.map .row) :
    rows = rows' :=
  List.map_injective_iff.mpr (fun _ _ hrow => Item.row.inj hrow) h

/-- The item is a row. -/
def IsRow (item : Item) : Prop := ∃ row, Item.row row = item

theorem exists_rows {items : List Item} (h : ∀ item ∈ items, IsRow item) :
    ∃ rows : List Entries, items = rows.map .row := by
  have hrange : items ∈ Set.range (List.map Item.row) := by
    rw [Set.range_list_map]
    exact h
  obtain ⟨rows, hrows⟩ := hrange
  exact ⟨rows, hrows.symm⟩

/-- Asking one item after the other is asking for all of them at once. -/
private theorem on_each_ask {α : Type} (f : Graph → Item → Checked α)
    (items : List Item) :
    (each (fun item => Run.ask fun g => f g item) items).on g
      = (items.mapM (f g), g) := by
  induction items with
  | nil => rfl
  | cons item items ih =>
      rw [each, on_bind, on_ask, List.mapM_cons]
      cases f g item with
      | error e => rfl
      | ok a =>
          show on (each _ items >>= fun rest => pure (a :: rest)) g = _
          rw [on_bind, ih]
          cases List.mapM (f g) items <;> rfl

theorem on_elementMap (keys : List Value) (hs : List Handle)
    (rest : List Step) :
    (run .plain (.call .elementMap keys :: rest) (hs.map .element)).on g
      = match hs.mapM (g.rowOf keys) with
        | .ok rows => (run .plain rest (rows.map .row)).on g
        | .error e => (.error e, g) := by
  have hrows : (hs.map Item.element).mapM (fun item => do
        .ok (Item.row (← g.row keys (g.element (← handle item)))))
      = (hs.mapM (g.rowOf keys)).map (List.map Item.row) := by
    induction hs with
    | nil => rfl
    | cons h hs ih =>
        rw [List.map_cons, List.mapM_cons, List.mapM_cons, ih]
        show (g.rowOf keys h >>= fun row => Except.ok (Item.row row)) >>= _ = _
        cases g.rowOf keys h with
        | error e => rfl
        | ok row => cases List.mapM (g.rowOf keys) hs <;> rfl
  show on (each (fun item => Run.ask fun g => do
      .ok (.row (← g.row keys (g.element (← handle item)))))
        (hs.map Item.element) >>=
    fun next => run .plain rest next) g = _
  rw [on_bind, on_each_ask (fun g item => do
      .ok (Item.row (← g.row keys (g.element (← handle item))))), hrows]
  cases hs.mapM (g.rowOf keys) <;> rfl

-- ================================================================= results

private theorem results_rows (g : Graph) (rows : List Entries) :
    g.results (rows.map .row) = .ok (rows.map .map) := by
  induction rows with
  | nil => rfl
  | cons row rows ih =>
      simp only [List.map_cons, results, result, ih, bind, Except.bind]

/-- All rows are what a list of results is completed from. -/
theorem complete_rows (g : Graph) (rows : List Entries) :
    Server.complete g .toList (rows.map .row)
      = .ok (.list (rows.map .map)) := by
  unfold Server.complete
  rw [results_rows]
  rfl

end Graph

namespace Result

theorem normalizeAll_eq_map (vs : List Value) :
    normalizeAll vs = vs.map normalize := by
  induction vs with
  | nil => rfl
  | cons v vs ih => rw [normalizeAll, ih, List.map_cons]

/-- The record of a row. -/
def ofRow (edge : Bool) (row : Entries) : Checked Value :=
  record edge (normalize (.map row))

theorem present_rows (edge : Bool) (rows : List Entries) :
    present edge (.list (rows.map .map))
      = (rows.mapM (ofRow edge)).map .list := by
  have hitems : (normalizeAll (rows.map .map)).mapM (record edge)
      = rows.mapM (ofRow edge) := by
    rw [normalizeAll_eq_map, List.map_map, List.mapM_map]
    rfl
  show ((normalizeAll (rows.map .map)).mapM (record edge) >>= fun rs =>
    Except.ok (Value.list rs)) = _
  rw [hitems]
  cases rows.mapM (ofRow edge) <;> rfl

end Result

end GraphMapper

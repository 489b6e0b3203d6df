/-
An id that is looked up, and an id that is looked for.

A filter that is nothing but the primary key with a scalar is looked up in the
index. In a row the same filter is read as a condition: the selection goes
through all elements with the label, and keeps those with the id. In a graph
that can be reached the two come to the same elements, of which there is at
most one, and so whatever steps stand behind them do the same
(`interchanges_row`).

# The same list

Both filters are accepted by every model, and no graph is needed for that. With
a graph, the lookup gives an element or none, and the search gives all elements
with the id. These are the same list, since there is no second element with an
equal id (`length_named_le`). Whatever the steps behind do, a failure among
them, they do it with this list.

Main statement: `interchanges_row`.

Chain: `Filter.Sought` for the steps of a lookup; `Query.Lookup` puts both
filters into operations.
-/
import GraphMapper.Proofs.Filter.Sought

namespace GraphMapper.Filter

open Run GraphMapper.Graph

variable {m : Model} {g : Graph} {x : Value} {f : Face}

-- ============================================================ what is named

/-- The elements of the model with an id, in the order in which they are
stored. -/
def named (m : Model) (x : Value) (g : Graph) : List Handle :=
  ((stored m g).map (·.2)).filter fun h =>
    (g.element h).label.equal m.label && (g.element h).id.equal x

/-- No two elements in the index have equal ids. -/
theorem length_named_le (hg : Graph.Sound [] g) (hface : x.face? = some f) :
    (named m x g).length ≤ 1 := by
  unfold named
  rw [← List.filter_filter, filter_id_eq_find? hg hface]
  refine Nat.le_trans (List.length_filter_le _ _) ?_
  cases ((stored m g).find? fun e => e.1.sameKey x).map (·.2) <;> simp

-- ==================================================================== steps

/-- A step that tries a test on each element goes on with those that pass. -/
private theorem on_keep {step : Step} {test : Item → Run Bool}
    {p : Handle → Bool}
    (hrun : ∀ rest items, run .plain (step :: rest) items
      = (keep test items >>= fun kept => run .plain rest kept))
    (htest : ∀ h, Gives Value.isKey g (test (.element h)) (p h))
        (hs : List Handle) (rest : List Step) :
    (run .plain (step :: rest) (hs.map .element)).on g
      = (run .plain rest ((hs.filter p).map .element)).on g := by
  have hkept : Gives Value.isKey g (keep test (hs.map .element))
      ((hs.map .element).filter fun item =>
      (handle item).toOption.any p) := by
    refine gives_keep fun item hitem => ?_
    obtain ⟨h, -, rfl⟩ := List.mem_map.mp hitem
    exact htest h
  rw [List.filter_map] at hkept
  rw [hrun]
  exact on_bind_ok hkept.on_eq

private theorem on_labelled (m : Model) (hs : List Handle) (rest : List Step) :
    (run .plain (labelled m.label :: rest) (hs.map .element)).on g
      = (run .plain rest
          ((hs.filter fun h => (g.element h).label.equal m.label).map
            .element)).on g := by
  refine on_keep (fun _ _ => rfl) (fun h => gives_ask ?_) hs rest
  rw [← isIn_label]
  rfl

/-- The step that an id is a condition of. -/
def identified (x : Value) : Step := .call .has [.idKey, x]

private theorem on_identified (hscalar : x.isScalar = true) (hs : List Handle)
    (rest : List Step) :
    (run .plain (identified x :: rest) (hs.map .element)).on g
      = (run .plain rest
          ((hs.filter fun h => (g.element h).id.equal x).map .element)).on g :=
  on_keep (fun _ _ => rfl)
    (fun h => gives_has rfl (passes_scalar hscalar) h) hs rest

-- ========================================================= the two selections

/-- In a row the filter for the primary key is a condition on all elements of
the model. -/
theorem select_row (hname : m.idField.face? = some f)
    (hrole : roleOf m.idField = .field) (hscalar : x.isScalar = true) :
    select m (.list [Query.byId m x])
      = .ok [source m [], labelled m.label, identified x] := by
  have hfield : parseField m.conditionKey m.idField x
      = .ok [.compare .idKey .eq x true] := by
    have hid : m.conditionKey m.idField = .idKey :=
      if_pos ((Value.equal_iff_face hname).mpr hname)
    unfold parseField
    split
    · cases hscalar
    · rw [if_pos hscalar, hid]
  have hparse : parse m.conditionKey (.list [Query.byId m x])
      = .ok [.compare .idKey .eq x true] := by
    unfold parse groups rowGroups Query.byId groups entryConditions
    rw [hrole]
    simp only [hfield, bind, Except.bind]
    rfl
  have hsought : soughtId? m.idField (.list [Query.byId m x]) = .ok none := rfl
  unfold select
  simp only [hsought, parse_given hparse, bind, Except.bind]
  rfl

/-- A selection by lookup goes on with what the id names. -/
theorem on_looked_up (hg : Reachable g) (hscalar : x.isScalar = true)
    (hself : x.equal x = true) (rest : List Step) :
    (run .plain ([source m [x], labelled m.label] ++ rest) [.start]).on g
      = (run .plain rest ((named m x g).map .element)).on g := by
  have hgo := on_source (select_id (m := m) hg hscalar hself)
    (labelled m.label :: rest)
  rw [on_labelled, List.filter_filter] at hgo
  exact hgo

/-- So does a selection that goes through all elements. -/
theorem on_looked_for (hscalar : x.isScalar = true) (rest : List Step) :
    (run .plain ([source m [], labelled m.label, identified x] ++ rest)
      [.start]).on g
        = (run .plain rest ((named m x g).map .element)).on g := by
  have hall : Graph.select (stored m g) [] = .ok ((stored m g).map (·.2)) :=
    rfl
  have hgo := on_source hall (labelled m.label :: identified x :: rest)
  rw [on_labelled, on_identified hscalar, List.filter_filter] at hgo
  rw [show named m x g = _ from List.filter_congr fun h _ => Bool.and_comm _ _]
  exact hgo

/-- The filters are both accepted, and whatever stands behind their selections
does the same with the graph, failures included. -/
def Interchanges (m : Model) (g : Graph) (v w : Value) : Prop :=
  ∃ s t, select m v = .ok s ∧ select m w = .ok t ∧
    ∀ rest, g.evaluate (s ++ rest) = g.evaluate (t ++ rest)

/-- The filter for the primary key may stand alone or in a row. -/
theorem interchanges_row (hg : Reachable g) (hname : m.idField.face? = some f)
    (hrole : roleOf m.idField = .field) (hscalar : x.isScalar = true)
    (hself : x.equal x = true) :
    Interchanges m g (Query.byId m x) (.list [Query.byId m x]) :=
  ⟨_, _, select_scalar hname hscalar, select_row hname hrole hscalar,
      fun rest =>
    (on_looked_up hg hscalar hself rest).trans
      (on_looked_for hscalar rest).symm⟩

end GraphMapper.Filter

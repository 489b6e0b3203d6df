/-
Selections and counts only read.

Conditions become tests, and tests of tests under `and` and `or`; none of them
changes the graph (`Filter.readsOnly_lowerAll`). So a selection leaves the
graph, and so does a count of what has been selected.

Which conditions they are does not matter, and neither does what is under the
operators: the name of each step tells that it only reads (`Graph.readsOnly`).
The induction is the one over conditions and groups.

Chain: `Graph.Running` shows that steps with such names change nothing; used by
`Query.Paging`, `Query.Identity` and `Connector.Commit`.
-/
import GraphMapper.Proofs.Query.Appending

namespace GraphMapper

namespace Filter

mutual

/-- Conditions are tested without changing anything. -/
theorem readsOnly_lower :
    ∀ {c : Condition} {steps : List Step},
      lower c = .ok steps → Graph.readsOnly steps = true
  | .compare field op operand true, steps, h => by
      rw [← Except.ok.inj h]
      rfl
  | .compare field op operand false, steps, h => by
      unfold lower at h
      obtain ⟨test, -, h⟩ := bind_eq_ok h
      rw [← Except.ok.inj h]
      rfl
  | .join junction groups, steps, h => by
      unfold lower at h
      obtain ⟨children, hchildren, h⟩ := bind_eq_ok h
      rw [← Except.ok.inj h]
      split
      · rfl
      · have hread := childrenRead_lowerGroups hchildren
        cases junction <;>
          simp [joining, Graph.readsOnly, Graph.changes, hread]

theorem readsOnly_lowerAll :
    ∀ {cs : List Condition} {steps : List Step}, lowerAll cs = .ok steps →
      Graph.readsOnly steps = true
  | [], steps, h => by
      rw [← Except.ok.inj h]
      rfl
  | c :: cs, steps, h => by
      unfold lowerAll at h
      obtain ⟨first, hfirst, h⟩ := bind_eq_ok h
      obtain ⟨rest, hrest, h⟩ := bind_eq_ok h
      rw [← Except.ok.inj h, Graph.readsOnly_append, readsOnly_lower hfirst,
        readsOnly_lowerAll hrest]
      rfl

theorem childrenRead_lowerGroups :
    ∀ {gs : List (List Condition)} {children : List Value},
      lowerGroups gs = .ok children → Graph.childrenRead children = true
  | [], children, h => by
      rw [← Except.ok.inj h]
      rfl
  | g :: gs, children, h => by
      unfold lowerGroups at h
      obtain ⟨steps, hsteps, h⟩ := bind_eq_ok h
      obtain ⟨rest, hrest, h⟩ := bind_eq_ok h
      rw [← Except.ok.inj h]
      simp only [Graph.childrenRead, Graph.childReads,
        childrenRead_lowerGroups hrest, Bool.and_true]
      split
      · rfl
      · exact readsOnly_lowerAll hsteps

end

/-- The elements that a filter lets through are found without changing
anything. -/
theorem readsOnly_select {m : Model} {filter : Value} {steps : List Step}
    (h : select m filter = .ok steps) : Graph.readsOnly steps = true := by
  obtain ⟨ids, conditions, tests, htests, rfl⟩ := select_eq_ok h
  have hread := readsOnly_lowerAll htests
  cases hedge : m.isEdge <;>
    simp [source, labelled, Graph.readsOnly, Graph.changes, Graph.runsChildren,
      hedge, hread]

end Filter

/-- So are they counted. -/
theorem Query.readsOnly_count {m : Model} {filter : Value} {steps : List Step}
    (h : Build.traversalFrom [] (count m filter) = .ok steps) :
    Graph.readsOnly steps = true := by
  unfold count select Build.traversalFrom at h
  simp only [Build.runFrom_bind, Build.runFrom_check] at h
  cases hselect : Filter.select m filter with
  | error e => rw [hselect] at h; cases h
  | ok selected =>
      rw [hselect] at h
      simp only [Build.runFrom_append, Build.runFrom_step,
        List.nil_append] at h
      rw [← Except.ok.inj h, Graph.readsOnly_append,
        Filter.readsOnly_select hselect]
      rfl

end GraphMapper

/-
What a destruction leaves.

The elements that a filter asks for are found without changing anything, and
are then dropped one by one (`on_dropAll`). A drop takes the entry of its
element out of the index, and no drop changes an element that stays
(`mem_dropped`). So none of the elements that stay is one that was asked for.

Nothing need be known of the filter but that it was accepted. Whether an
element is asked for is a matter of its id where the filter is nothing but the
primary key with a scalar, since it is then looked up, and else of the meaning
of the filter (`asksFor`).

Main statement: `evaluate_drop`.
-/
import GraphMapper.Proofs.Filter.Sought
import GraphMapper.Proofs.Graph.Chaining
import GraphMapper.Proofs.Query.ById

namespace GraphMapper

-- ==================================================================== drops

namespace Graph

open Run

variable {g : Graph} {h : Handle} {hs : List Handle} {e : Value × Handle}

/-- A drop changes no element: it only takes entries away. -/
private theorem element_dropElement (g : Graph) (h k : Handle) :
    (g.dropElement h).element k = g.element k := by
  unfold dropElement
  simp only
  split <;> rfl

private theorem element_dropped (g : Graph) (hs : List Handle) (k : Handle) :
    (hs.foldl dropElement g).element k = g.element k := by
  induction hs generalizing g with
  | nil => rfl
  | cons h hs ih =>
      exact (ih (g.dropElement h)).trans (element_dropElement g h k)

/-- The entry of the element itself is one of those. -/
private theorem mem_dropElement (hg : Sound [] g) :
    (e ∈ (g.dropElement h).vertices → e ∈ g.vertices ∧ e.2 ≠ h) ∧
      (e ∈ (g.dropElement h).edges → e ∈ g.edges ∧ e.2 ≠ h) := by
  unfold dropElement
  simp only
  by_cases hkind : (g.element h).isEdge = true
  · rw [if_pos hkind]
    refine ⟨fun he => ⟨he, ?_⟩, fun he => ⟨?_, hg.edges.ne_of_mem_erase e he⟩⟩
    · rintro rfl
      have hvertex := (hg.vertex e he).2
      rw [hkind] at hvertex
      cases hvertex
    · exact (Entries.erase_sublist _ _).subset he
  · rw [if_neg hkind]
    refine ⟨fun he => ⟨?_, hg.vertices.ne_of_mem_erase e he⟩, fun he => ?_⟩
    · exact (Entries.erase_sublist _ _).subset he
    · have hold : e ∈ g.edges := (List.mem_filter.mp he).1
      refine ⟨hold, ?_⟩
      rintro rfl
      exact hkind (hg.edge e hold).2

/-- After a row of drops no entry is of an element that was dropped. -/
theorem mem_dropped (hg : Sound [] g) :
    (e ∈ (hs.foldl dropElement g).vertices → e ∈ g.vertices ∧ e.2 ∉ hs) ∧
      (e ∈ (hs.foldl dropElement g).edges → e ∈ g.edges ∧ e.2 ∉ hs) := by
  induction hs generalizing g with
  | nil =>
      exact ⟨fun he => ⟨he, List.not_mem_nil⟩,
        fun he => ⟨he, List.not_mem_nil⟩⟩
  | cons h hs ih =>
      obtain ⟨hvertices, hedges⟩ := ih (hg.dropElement h)
      have hfirst := mem_dropElement (h := h) (e := e) hg
      constructor
      · intro he
        obtain ⟨he, hrest⟩ := hvertices he
        obtain ⟨he, hne⟩ := hfirst.1 he
        exact ⟨he, fun hmem => (List.mem_cons.mp hmem).elim hne hrest⟩
      · intro he
        obtain ⟨he, hrest⟩ := hedges he
        obtain ⟨he, hne⟩ := hfirst.2 he
        exact ⟨he, fun hmem => (List.mem_cons.mp hmem).elim hne hrest⟩

/-- Elements that have been found are dropped one by one. -/
theorem on_dropAll (hs : List Handle) (g : Graph) :
    (run .plain [.call .drop []] (hs.map .element)).on g
      = (.ok [], hs.foldl dropElement g) := by
  have heach : (each drop (hs.map .element)).on g
      = (.ok (hs.map fun _ => ()), hs.foldl dropElement g) := by
    induction hs generalizing g with
    | nil => rfl
    | cons h hs ih =>
        have hfirst : (drop (.element h)).on g = (.ok (), g.dropElement h) :=
          rfl
        rw [List.map_cons, each, on_bind_ok hfirst,
          on_bind_ok (ih (g.dropElement h))]
        rfl
  show ((each drop (hs.map .element) >>= fun _ => pure []) >>= fun next =>
    run .plain [] next).on g = _
  rw [bind_assoc, on_bind_ok heach]
  rfl

end Graph

-- ========================================================== what is asked for

namespace Filter

open Run GraphMapper.Graph

variable {m : Model} {g g' : Graph} {w v : Value} {steps : List Step}
  {out : List Item}

/-- The filter asks for the element of the model: by the id that is sought, or
else because the element meets it. A filter that is not given is met by all. -/
def asksFor (m : Model) (w : Value) (e : Element) : Bool :=
  e.label.equal m.label &&
    match soughtId? m.idField w with
    | .ok (some v) => e.id.same v
    | _ => meets m.conditionKey e .all (if w.isGiven then w else .map [])

/-- What is selected is what is asked for, if the traversal gets that far. -/
private theorem evaluate_asked (hg : Graph.Sound [] g) (hw : w.isProper = true)
    (hselect : select m w = .ok steps) :
    (∃ hs : List Handle, g.evaluate steps = (.ok (hs.map .element), g) ∧
      ∀ h, h ∈ hs ↔ (∃ e ∈ stored m g, e.2 = h) ∧
        asksFor m w (g.element h) = true) ∨
    ∃ e, g.evaluate steps = (.error e, g) := by
  unfold select at hselect
  obtain ⟨sought, hsought, hselect⟩ := bind_eq_ok hselect
  -- by one id, or by the conditions of the filter
  cases sought with
  | some v =>
      have hscalar := isScalar_of_sought hsought
      refine .inl ⟨(target m v g).toList, ?_, fun h => ?_⟩
      · rw [← Except.ok.inj hselect]
        exact on_sought hscalar []
      · rw [Option.mem_toList, target_eq_some_iff hg hscalar]
        simp only [asksFor, hsought, Bool.and_eq_true]
  | none =>
      obtain ⟨cs, hparse, hselect⟩ := bind_eq_ok hselect
      obtain ⟨tests, htests, hselect⟩ := bind_eq_ok hselect
      have hproper : (if w.isGiven then w else .map []).isProper = true := by
        split
        · exact hw
        · rfl
      have hmeans := parse_means (resolvesKeys_conditionKey m) hproper hparse
      obtain ⟨tests', htests', hfilters⟩ := lowerAll_filters cs hmeans.formed
      obtain rfl : tests' = tests := Except.ok.inj (htests'.symm.trans htests)
      have hall : Graph.select (stored m g) []
          = .ok ((stored m g).map (·.2)) := rfl
      have hgo := evaluate_source hall ((filters_labelled m).append hfilters)
      rw [← Except.ok.inj hselect]
      rcases hgo with hgo | ⟨key, -, -, hgo⟩
      · refine .inl ⟨_, hgo, fun h => ?_⟩
        rw [List.mem_filter, List.mem_map]
        simp only [hmeans.agrees, asksFor, hsought]
      · exact .inr ⟨_, hgo⟩

/-- A destruction is a selection and a drop. -/
private theorem drop_eq_ok
    (h : Build.traversalFrom [] (Query.drop m w) = .ok steps) :
    ∃ selected, select m w = .ok selected ∧
      steps = selected ++ [.call .drop []] := by
  unfold Query.drop Query.select at h
  rw [bind_assoc] at h
  obtain ⟨selected, hselect, h⟩ := Build.traversalFrom_check h
  exact ⟨selected, hselect,
    (Except.ok.inj (Build.traversalFrom_append h)).symm⟩

/-- A destruction that succeeds leaves no element that it asks for. -/
theorem evaluate_drop (hg : Graph.Sound [] g) (hw : w.isProper = true)
    (hsteps : Build.traversalFrom [] (Query.drop m w) = .ok steps)
    (hgo : g.evaluate steps = (.ok out, g')) :
    ∀ e ∈ stored m g', asksFor m w (g'.element e.2) = false := by
  obtain ⟨selected, hselect, rfl⟩ := drop_eq_ok hsteps
  have hrun : (run .plain (selected ++ [.call .drop []]) [.start]).on g
      = (.ok out, g') := hgo
  rw [run_append_step (by decide) (by decide)] at hrun
  rcases evaluate_asked hg hw hselect with ⟨hs, hfound, hmem⟩ | ⟨e, hfailed⟩
  · rw [on_bind_ok (show (run .plain selected [.start]).on g = _ from hfound),
      on_dropAll] at hrun
    obtain rfl : hs.foldl dropElement g = g' := (Prod.mk.inj hrun).2
    intro e he
    have hstays : e ∈ stored m g ∧ e.2 ∉ hs := by
      unfold stored at he ⊢
      split at he
      · rw [if_pos ‹_›]
        exact (mem_dropped hg).2 he
      · rw [if_neg ‹_›]
        exact (mem_dropped hg).1 he
    rw [element_dropped, Bool.eq_false_iff]
    exact fun hasks => hstays.2 ((hmem e.2).mpr ⟨⟨e, hstays.1, rfl⟩, hasks⟩)
  · rw [on_bind_error (show (run .plain selected [.start]).on g
        = _ from hfailed)] at hrun
    cases hrun

end Filter

end GraphMapper

/-
What is left when the elements that a filter finds are dropped.

A drop goes by the id of its element, while the index from which the elements
were taken shrinks. No entry but that of the element stands under its id, and
no element is found twice, so each drop takes away the entry of its own
element, and a drop of a vertex the edges that touch it. What is left is what
there was without these, in the same order, and no element has changed
(`Removed`).

# Why one drop does not disturb the next

The elements are taken before the first drop, and all of them are of one kind.
A drop of a vertex takes edges with it but no other vertex, and a drop of an
edge takes nothing else. So whatever is still to be dropped is in its index,
under its own id.

Main statement: `evaluate_drop_found`.

Chain: `Filter.Dropping` for one drop, `Query.Paging` for the selection;
`Connector.Destroying` has the call.
-/
import GraphMapper.Proofs.Filter.Dropping
import GraphMapper.Proofs.Query.Paging

namespace GraphMapper

namespace Graph

variable {g : Graph}

/-- The ends of the edges are in the graph. -/
def Closed (g : Graph) : Prop :=
  ∀ e ∈ g.edges, ∀ h, g.touches h e.2 = true → ∃ v ∈ g.vertices, v.2 = h

private theorem Sound.dropAll (hg : Sound [] g) (hs : List Handle) :
    Sound [] (hs.foldl Graph.dropElement g) := by
  induction hs generalizing g with
  | nil => exact hg
  | cons h hs ih => exact ih (hg.dropElement h)

end Graph

namespace Filter

open Run GraphMapper.Graph

variable {m : Model} {g g' g'' : Graph} {w : Value} {h : Handle}
  {hs : List Handle} {cs : List Condition}

-- ================================================================= removals

/-- Elements of the model's kind have left the graph, and if they are vertices,
so have the edges that touch one of them. All else is as it was, in the order
in which it was. -/
structure Removed (m : Model) (hs : List Handle) (g g' : Graph) : Prop where
  elements : g'.elements = g.elements
  nextId : g'.nextId = g.nextId
  own : stored m g' = (stored m g).filter fun e => !hs.contains e.2
  edges : m.isEdge = false →
    g'.edges = g.edges.filter fun e => hs.all fun h => !g.touches h e.2
  vertices : m.isEdge = true → g'.vertices = g.vertices

theorem Removed.element (hr : Removed m hs g g') (k : Handle) :
    g'.element k = g.element k := by
  unfold Graph.element
  rw [hr.elements]

theorem Removed.touches (hr : Removed m hs g g') (h k : Handle) :
    g'.touches h k = g.touches h k := by
  unfold Graph.touches
  rw [hr.element]

private theorem removed_nil (m : Model) (g : Graph) : Removed m [] g g where
  elements := rfl
  nextId := rfl
  own := (List.filter_eq_self.mpr fun _ _ => rfl).symm
  edges := fun _ => (List.filter_eq_self.mpr fun _ _ => rfl).symm
  vertices := fun _ => rfl

/-- One element leaves after the other. -/
theorem Removed.cons (hfirst : Removed m [h] g g')
    (hrest : Removed m hs g' g'') :
    Removed m (h :: hs) g g'' where
  elements := hrest.elements.trans hfirst.elements
  nextId := hrest.nextId.trans hfirst.nextId
  own := by
    rw [hrest.own, hfirst.own, List.filter_filter]
    refine List.filter_congr fun e _ => ?_
    simp [Bool.and_comm]
  edges := by
    intro hkind
    rw [hrest.edges hkind, hfirst.edges hkind, List.filter_filter]
    refine List.filter_congr fun e _ => ?_
    simp only [hfirst.touches, List.all_cons, List.all_nil, Bool.and_true]
    exact Bool.and_comm _ _
  vertices := fun hkind => (hrest.vertices hkind).trans (hfirst.vertices hkind)

/-- A drop removes its element, if that is in the index. -/
private theorem removed_dropElement (hg : Graph.Sound [] g)
    (hstored : ∃ e ∈ stored m g, e.2 = h) :
    Removed m [h] g (g.dropElement h) := by
  have hother : ∀ e : Value × Handle, (!([h] : List Handle).contains e.2)
      = (e.2 != h) := by
    intro e
    rw [List.contains_cons, List.contains_nil, Bool.or_false]
    rfl
  have herase := (Sound.stored hg).erase_eq_filter hstored
  -- an edge leaves its index; a vertex takes its edges with it
  cases hkind : m.isEdge with
  | true =>
      unfold stored at herase hstored
      rw [hkind, if_pos rfl] at herase hstored
      obtain ⟨e, he, rfl⟩ := hstored
      have hdrop : g.dropElement e.2 = g.unindexEdge (g.ids e.2) :=
        if_pos (hg.edge e he).2
      rw [hdrop]
      refine ⟨rfl, rfl, ?_, fun hno => (nomatch hkind.symm.trans hno),
        fun _ => rfl⟩
      unfold stored
      simp only [hkind, if_true, hother]
      exact herase
  | false =>
      unfold stored at herase hstored
      rw [hkind, if_neg Bool.false_ne_true] at herase hstored
      obtain ⟨e, he, rfl⟩ := hstored
      have hdrop : g.dropElement e.2 = { g.unindexVertex (g.ids e.2) with
          edges := g.edges.filter fun entry => !g.touches e.2 entry.2 } := by
        refine if_neg ?_
        rw [(hg.vertex e he).2]
        exact Bool.false_ne_true
      rw [hdrop]
      refine ⟨rfl, rfl, ?_, fun _ => ?_,
        fun hno => (nomatch hkind.symm.trans hno)⟩
      · unfold stored
        simp only [hkind, Bool.false_eq_true, if_false, hother]
        exact herase
      · simp only [List.all_cons, List.all_nil, Bool.and_true]

private theorem removed_dropAll (hg : Graph.Sound [] g) (hnodup : hs.Nodup)
    (hstored : ∀ h ∈ hs, ∃ e ∈ stored m g, e.2 = h) :
    Removed m hs g (hs.foldl dropElement g) := by
  induction hs generalizing g with
  | nil => exact removed_nil m g
  | cons h hs ih =>
      obtain ⟨hnew, hnodup⟩ := List.nodup_cons.mp hnodup
      have hfirst := removed_dropElement hg (hstored h List.mem_cons_self)
      refine hfirst.cons (ih (hg.dropElement h) hnodup fun k hk => ?_)
      obtain ⟨e, he, rfl⟩ := hstored k (List.mem_cons_of_mem h hk)
      refine ⟨e, ?_, rfl⟩
      rw [hfirst.own]
      refine List.mem_filter.mpr ⟨he, ?_⟩
      have hne : e.2 ≠ h := fun heq => hnew (heq ▸ hk)
      simp [hne]

/-- If the ends of the edges were in the graph, they still are: no vertex has
left without its edges. -/
theorem Removed.closed (hr : Removed m hs g g') (hg : g.Closed) :
    g'.Closed := by
  intro e he h htouches
  rw [hr.touches] at htouches
  cases hkind : m.isEdge with
  | true =>
      have hsub : e ∈ g.edges := by
        have hown := hr.own
        unfold stored at hown
        rw [hkind, if_pos rfl, if_pos rfl] at hown
        rw [hown] at he
        exact (List.mem_filter.mp he).1
      rw [hr.vertices hkind]
      exact hg e hsub h htouches
  | false =>
      rw [hr.edges hkind] at he
      obtain ⟨he, huntouched⟩ := List.mem_filter.mp he
      obtain ⟨v, hv, rfl⟩ := hg e he h htouches
      have hown := hr.own
      unfold stored at hown
      rw [hkind, if_neg Bool.false_ne_true, if_neg Bool.false_ne_true] at hown
      refine ⟨v, ?_, rfl⟩
      rw [hown]
      refine List.mem_filter.mpr ⟨hv, ?_⟩
      rw [Bool.not_eq_true', Bool.eq_false_iff]
      intro hmem
      have hno := List.all_eq_true.mp huntouched v.2
        (List.contains_iff_mem.mp hmem)
      rw [htouches] at hno
      cases hno

-- ============================================================ what is found

/-- What is found is what the filter asks for. -/
theorem mem_found_iff (hg : Graph.Sound [] g) (hw : w.isProper = true)
    (hparse : parse m.conditionKey w = .ok cs) :
    h ∈ found m w g ↔ (∃ e ∈ stored m g, e.2 = h) ∧
      asksFor m w (g.element h) = true := by
  have hproper : (if w.isGiven then w else .map []).isProper = true := by
    split
    · exact hw
    · rfl
  have hsame : ∀ e,
      meets m.conditionKey e .all (if w.isGiven then w else .map [])
        = meets m.conditionKey e .all w := fun e =>
    ((parse_means (resolvesKeys_conditionKey m) hproper
      (parse_given hparse)).agrees e).symm.trans
        ((parse_means (resolvesKeys_conditionKey m) hw hparse).agrees e)
  have hmatching : h ∈ matching m w g ↔ (∃ e ∈ stored m g, e.2 = h) ∧
      ((g.element h).label.equal m.label &&
        meets m.conditionKey (g.element h) .all
          (if w.isGiven then w else .map [])) = true := by
    unfold matching
    rw [List.mem_filter, List.mem_map, hsame]
  unfold found asksFor
  cases hsought : soughtId? m.idField w with
  | error e => exact hmatching
  | ok sought =>
      cases sought with
      | none => exact hmatching
      | some v =>
          exact Option.mem_toList.trans <|
            (target_eq_some_iff hg (isScalar_of_sought hsought)).trans <|
              and_congr_right fun _ => (Bool.and_eq_true _ _).symm.to_iff

/-- Once it has been removed nothing is found. -/
private theorem found_of_removed (hg : Graph.Sound [] g)
    (hg' : Graph.Sound [] g')
    (hw : w.isProper = true) (hparse : parse m.conditionKey w = .ok cs)
    (hr : Removed m (found m w g) g g') :
    found m w g' = [] := by
  refine List.eq_nil_iff_forall_not_mem.mpr fun h hh => ?_
  obtain ⟨⟨e, he, rfl⟩, hasks⟩ := (mem_found_iff hg' hw hparse).mp hh
  rw [hr.own] at he
  obtain ⟨he, hstays⟩ := List.mem_filter.mp he
  rw [hr.element] at hasks
  have hfound : e.2 ∈ found m w g :=
    (mem_found_iff hg hw hparse).mpr ⟨⟨e, he, rfl⟩, hasks⟩
  rw [Bool.not_eq_true', Bool.eq_false_iff] at hstays
  exact hstays (List.contains_iff_mem.mpr hfound)

/-- A drop behind a selection removes what is found, and then nothing more
is. -/
theorem evaluate_drop_found (hg : Graph.Sound [] g) (hw : w.isProper = true)
    (hparse : parse m.conditionKey w = .ok cs) {selected : List Step}
    (hgo : g.evaluate selected = (.ok ((found m w g).map .element), g)) :
    let dropped := (found m w g).foldl dropElement g
    g.evaluate (selected ++ [.call .drop []]) = (.ok [], dropped) ∧
      Removed m (found m w g) g dropped ∧ found m w dropped = [] := by
  have hstored : ∀ h ∈ found m w g, ∃ e ∈ stored m g, e.2 = h :=
    fun h hh => ((mem_found_iff hg hw hparse).mp hh).1
  have hremoved := removed_dropAll hg (nodup_found hg m w) hstored
  refine ⟨?_, hremoved, found_of_removed hg (hg.dropAll _) hw hparse hremoved⟩
  rw [evaluate_append (by decide) (by decide)]
  exact (on_bind_ok hgo).trans (on_dropAll _ g)

end Filter

end GraphMapper

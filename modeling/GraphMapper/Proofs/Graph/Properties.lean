/-
The keys of stored properties find themselves.

A property is stored under a key, and it is read, written over and dropped by
looking for that key. All of this is of use only if the key is the same as
itself (`Entries.IsReflexive`), and whoever reasons about a stored element
would have to ask for it each time. A graph carries it for all its elements at
once (`Graph.IsKeyed`).

# What a step can do to it

Only two changes put a key into an element: a `property` step, whose key is an
argument of the step, and an entrance from outside, which brings a mapping of
its own. An argument of a proper step is the same as itself once it may be a
key at all (`Value.sameKey_self`). Every other change takes properties away or
leaves them alone, and a new element that a step adds has none.

So the relation "keyed before, keyed after" holds across each step of a proper
traversal (`sustains_keyed`), and with that across the whole of it, however it
ends (`IsKeyed.evaluate`).

Chain: `Running` has the induction over steps; `Reachable` puts this beside
what is known of the indexes.
-/
import GraphMapper.Proofs.Graph.Coherence
import GraphMapper.Proofs.Graph.Running
import GraphMapper.Proofs.Value.Proper

namespace GraphMapper

namespace Graph

open Run

/-- No element has a property under a key that is not the same as itself. -/
def IsKeyed (g : Graph) : Prop :=
  ∀ k, Entries.IsReflexive (g.element k).props

variable {g g' : Graph}

-- =========================================================== single changes

/-- There is no element yet. -/
theorem isKeyed_empty : IsKeyed empty := fun _ => Entries.isReflexive_nil

/-- The indexes are no matter of the properties. -/
private theorem IsKeyed.of_elements (h : IsKeyed g)
    (hsame : g'.elements = g.elements) : IsKeyed g' := by
  intro k
  rw [show g'.element k = g.element k by unfold element; rw [hsame]]
  exact h k

/-- An id is handed out, and the elements stay. -/
theorem IsKeyed.freshId (h : IsKeyed g) : IsKeyed g.freshId.1 :=
  h.of_elements rfl

/-- One element is changed, and keeps its keys in order. -/
theorem IsKeyed.update (h : IsKeyed g) (k : Handle) {f : Element → Element}
    (hf : ∀ e, Entries.IsReflexive e.props →
      Entries.IsReflexive (f e).props) : IsKeyed (g.update k f) := by
  intro i
  rw [element_update]
  split
  · exact hf _ (h i)
  · exact h i

/-- One more is added whose keys are. -/
theorem IsKeyed.add (h : IsKeyed g) {e : Element}
    (he : Entries.IsReflexive e.props) : IsKeyed (g.add e).1 := by
  intro i
  rw [element_add]
  split
  · exact he
  · exact h i

/-- A vertex comes with properties. -/
theorem IsKeyed.addVertex (h : IsKeyed g) (label id : Value) {props : Entries}
    (hprops : Entries.IsReflexive props) :
    IsKeyed (g.addVertex label id props).1 := by
  have henter : ∀ {g' : Graph} {own : Value}, IsKeyed g' →
      IsKeyed ((g'.add ⟨own, label, props, none⟩).1.indexVertex own
        g'.elements.length) := fun h' =>
    (h'.add (e := ⟨_, label, props, none⟩) hprops).of_elements rfl
  cases id with
  | null => exact henter h.freshId
  | _ => exact henter h

/-- An edge comes without. -/
theorem IsKeyed.addEdge (h : IsKeyed g) (label : Value) (origin : Handle) :
    IsKeyed (g.addEdge label origin).1 :=
  h.freshId.add
    (e := ⟨_, label, [], some ⟨origin, none⟩⟩) Entries.isReflexive_nil

/-- An id is no property. -/
theorem IsKeyed.rename (h : IsKeyed g) (k : Handle) (id : Value) :
    IsKeyed (g.rename k id) := by
  refine IsKeyed.update (h.of_elements ?_) k fun _ he => he
  unfold Graph.unindex
  split <;> rfl

/-- To drop an element leaves the others as they are. -/
theorem IsKeyed.dropElement (h : IsKeyed g) (k : Handle) :
    IsKeyed (g.dropElement k) := by
  refine h.of_elements ?_
  unfold Graph.dropElement
  simp only
  split <;> rfl

/-- An edge with all that is known about it enters with keyed properties. -/
theorem IsKeyed.enterEdge (h : IsKeyed g)
    {id label originId targetId : Value} {props : Entries}
    (hprops : Entries.IsReflexive props)
    (hg : g.enterEdge id label originId targetId props = .ok g') :
    IsKeyed g' := by
  have henter : ∀ {g₁ : Graph} {own : Value}, IsKeyed g₁ → (do
      let origin ← g₁.vertexOf originId
      let target ← g₁.vertexOf targetId
      if own.isKey then
        let added := g₁.add ⟨own, label, props, some ⟨origin, some target⟩⟩
        .ok (added.1.indexEdge own added.2)
      else .error own.keyFault) = Except.ok g' → IsKeyed g' := by
    intro g₁ own h₁ henters
    obtain ⟨origin, -, henters⟩ := bind_eq_ok henters
    obtain ⟨target, -, henters⟩ := bind_eq_ok henters
    split at henters
    · rw [← Except.ok.inj henters]
      exact (h₁.add (e := ⟨own, label, props, some ⟨origin, some target⟩⟩)
        hprops).of_elements rfl
    · cases henters
  unfold Graph.enterEdge at hg
  cases id with
  | null => exact henter h.freshId hg
  | _ => exact henter h hg

-- ========================================================== a property step

/-- What `property` does to an element, but for the reserved key of ids. -/
theorem on_setProperty {key : Value} (hkey : key ≠ .idKey) (value : Value)
    (g : Graph) (h : Handle) :
    (setProperty key value (.element h)).on g
      = if key.isKey then (.ok (), g.update h fun e =>
          { e with props := Entries.insert key value e.props })
        else (.error key.keyFault, g) := by
  unfold setProperty
  split
  · exact absurd rfl hkey
  · by_cases hk : key.isKey = true <;> simp [on_bind, handle, hk]

/-- An element gets another id, under which it is found if the id may be a
key. -/
theorem on_setProperty_id (g : Graph) (h : Handle) (value : Value) :
    (setProperty .idKey value (.element h)).on g
      = if value.isKey then (.ok (), (g.rename h value).index value h)
        else (.error value.keyFault, g.rename h value) := by
  have hkind := isEdge_rename g h value
  unfold index
  rw [hkind]
  cases hedge : (g.element h).isEdge <;> cases hkey : value.isKey <;>
    simp [setProperty, handle, on_bind, hkey, hedge, rename, unindex, ids,
      Value.idKey]

-- ============================================================= single steps

/-- The graph is keyed after the run if it was so before. -/
abbrev KeepsKeyed {α : Type} (r : Run α) : Prop :=
  Within (fun g g' => g.IsKeyed → g'.IsKeyed) r

/-- To keep a graph keyed can be put together. -/
private theorem steady_keyed : Steady fun g g' => g.IsKeyed → g'.IsKeyed where
  refl _ := id
  trans h₁ h₂ := h₂ ∘ h₁

/-- What `property` stores is under an argument of the step, and the argument
finds itself if it may be a key. -/
private theorem keepsKeyed_setProperty {key : Value}
    (hkey : key.isProper = true) (value : Value) (item : Item) :
    KeepsKeyed (setProperty key value item) := by
  cases item with
  | element k =>
      intro g h
      by_cases hid : key = .idKey
      · -- an element that gets another id keeps its properties
        have hrenamed := h.rename k value
        rw [hid, on_setProperty_id]
        split
        · refine hrenamed.of_elements ?_
          unfold index
          split <;> rfl
        · exact hrenamed
      · rw [on_setProperty hid]
        split
        · next hk =>
          have hself := Value.sameKey_self hkey hk
          exact h.update k fun e he => he.insert hself value
        · exact h
  | _ => exact within_fail steady_keyed _

/-- To drop does so, be it an element or a property. -/
private theorem keepsKeyed_drop (item : Item) : KeepsKeyed (drop item) := by
  cases item with
  | property owner key =>
      exact fun g h => h.update owner fun e he => he.erase key
  | element k => exact fun g h => h.dropElement k
  | _ => exact within_fail steady_keyed _

/-- To start an edge does. -/
private theorem keepsKeyed_startEdge (args : List Value) (item : Item) :
    KeepsKeyed (startEdge args item) := by
  unfold startEdge
  split
  · exact within_fail steady_keyed _
  · split
    · refine Within.bind steady_keyed (fun g h => h) fun isEdge => ?_
      split
      · exact within_fail steady_keyed _
      · exact Within.bind steady_keyed (fun g h => h.addEdge _ _) fun _ =>
          within_pure steady_keyed _
    · exact within_fail steady_keyed _

/-- To link its ends does. -/
private theorem keepsKeyed_link (edge : Item) (found : List Item) :
    KeepsKeyed (link edge found) := by
  unfold link
  split
  · exact within_fail steady_keyed _
  · exact (within_ask steady_keyed _).bind steady_keyed fun k g h =>
      h.update k fun _ he => he

/-- To enter it does. -/
private theorem keepsKeyed_enterEdges (edges : List Item) :
    KeepsKeyed (enterEdges edges) := by
  refine (within_each steady_keyed fun edge _ => ?_).bind steady_keyed
    fun _ => within_pure steady_keyed _
  exact (within_ask steady_keyed _).bind steady_keyed fun k g h =>
    h.of_elements rfl

/-- Of the steps that stand for themselves three change the graph. -/
private theorem keepsKeyed_perform {name : StepName} {args : List Value}
    (hargs : Value.areProper args = true) (items : List Item) :
    KeepsKeyed (perform name args items) := by
  have hkeep := steady_keyed.composes
  have hread : changes name = false →
      KeepsKeyed (perform name args items) := fun hname g h => by
    rw [reads_perform hname args items g]
    exact h
  cases name
  case drop =>
      match args with
      | [] =>
          exact hkeep.bind (hkeep.each fun item _ => keepsKeyed_drop item)
            fun _ => hkeep.pure _
      | _ :: _ => exact hkeep.slip _
  case addVertex =>
      match args with
      | [label] =>
          refine hkeep.each fun _ _ => hkeep.bind (fun g h => ?_) fun _ =>
            hkeep.pure _
          exact h.addVertex label .null Entries.isReflexive_nil
      | [] | _ :: _ :: _ => exact hkeep.slip _
  case property =>
      match args, hargs with
      | [key, value], hargs =>
          simp only [Value.areProper, Bool.and_eq_true] at hargs
          exact hkeep.bind
            (hkeep.each fun item _ =>
              keepsKeyed_setProperty hargs.1 value item)
            fun _ => hkeep.pure _
      | [], _ | [_], _ | _ :: _ :: _ :: _, _ => exact hkeep.slip _
  case addEdge => exact hkeep.slip _
  case «to» => exact within_fail steady_keyed _
  all_goals exact hread rfl

/-- The steps whose arguments are proper, with the traversals that they
run. -/
def Admission.proper : Admission where
  step _ args := Value.areProper args = true
  steps steps := Value.stepsAreProper steps = true
  children vs := Value.areProper vs = true
  first {name args rest} h := by
    simpa [Value.stepsAreProper] using h
  runs _ h := h
  child {v vs} h := by
    simp only [Value.areProper, Bool.and_eq_true] at h
    refine ⟨fun own hown => ?_, h.2⟩
    subst hown
    simpa [Value.isProper] using h.1

/-- Each step does, if its arguments are proper. -/
theorem sustains_keyed : Sustains .proper fun _ r => KeepsKeyed r where
  composes := steady_keyed.composes
  perform hargs items := keepsKeyed_perform hargs items
  sort _ _ := within_ask steady_keyed _
  start _ item := keepsKeyed_startEdge _ item
  origin _ := within_ask steady_keyed _
  link _ edge found := keepsKeyed_link edge found
  enter _ _ edges := keepsKeyed_enterEdges edges

/-- Whatever comes of a proper traversal, the graph is keyed after it. -/
theorem IsKeyed.evaluate (h : IsKeyed g) {steps : List Step}
    (hsteps : Value.stepsAreProper steps = true) :
    IsKeyed (g.evaluate steps).2 :=
  sustains_keyed.run steps hsteps .plain [.start] g h

end Graph

end GraphMapper

/-
How traversals fail on a graph.

The server knows nothing of the models and the rules of the library, so no
traversal fails on it with a rejection: it is refused as a server refuses, it
has a step that is not there, or it asks an item for what the item has not
(`Run.Accepts`). This is so for every traversal, those included that nobody has
checked.

# From steps to runs

Only single steps have to be looked at (`sustains_accepts`): the induction over
rows of steps, and over the traversals that stand as their arguments, is one
for all properties that compose (`Sustains.run`). The mutual recursion at the
end is another one, over items that are groups of items.

Main statement: `neverRejects_evaluate`.

Chain: `Running` has that induction; `Failure.Rejection` has the values that
are read; `Connector.Rejection` uses `neverRejects_evaluate` and what is said
of answers.
-/
import GraphMapper.Connector.Server
import GraphMapper.Proofs.Failure.Rejection
import GraphMapper.Proofs.Graph.Running
import GraphMapper.Proofs.Sorting.Failing

namespace GraphMapper

namespace Run

variable {α β : Type}

/-- The run rejects nothing, whatever the graph is. -/
def Accepts (r : Run α) : Prop := ∀ g, NeverRejects (r.on g).1

/-- What is given as it stands is no failure. -/
theorem accepts_pure (a : α) : Accepts (pure a : Run α) :=
  fun _ => failsOnly_ok a

/-- A failure that is no rejection. -/
private theorem accepts_fail {e : Failure} (h : e.isRejection = false) :
    Accepts (fail e : Run α) :=
  fun _ => failsOnly_error h

/-- A slip is none. -/
private theorem accepts_slip (s : Slip) :
    Accepts (slip s : Run α) := accepts_fail rfl

/-- A value that cannot be a key has no text, or is of a type that cannot. -/
private theorem accepts_keyFault (v : Value) :
    Accepts (fail v.keyFault : Run α) :=
  accepts_fail v.isTextless_keyFault.isRejection_eq_false

/-- What is read off the graph rejects nothing if the reading does not. -/
private theorem accepts_ask {f : Graph → Checked α}
    (h : ∀ g, NeverRejects (f g)) : Accepts (ask f) := by
  intro g
  rw [on_ask]
  exact h g

/-- A change succeeds. -/
theorem accepts_change (f : Graph → Graph × α) : Accepts (change f) :=
  fun _ => failsOnly_ok _

/-- And so does one that gives nothing back. -/
private theorem accepts_modify (f : Graph → Graph) :
    Accepts (modify f : Run Unit) :=
  fun _ => failsOnly_ok _

/-- The failure of a whole is that of a part. -/
theorem Accepts.bind {r : Run α} {k : α → Run β} (hr : Accepts r)
    (hk : ∀ a, Accepts (k a)) :
    Accepts (r >>= k) := by
  intro g
  have hg := hr g
  rw [on_bind]
  rcases hrun : r.on g with ⟨e | a, g'⟩
  · rw [hrun] at hg
    exact failsOnly_error (hg e rfl)
  · exact hk a g'

/-- So the property is one that runs have if their parts do. -/
private theorem composes_accepts : Composes fun _ r => Accepts r where
  pure := accepts_pure
  slip := accepts_slip
  bind := Accepts.bind

end Run

namespace Graph

open Run

-- ================================================================= reading

/-- An item that is no element has no handle, which is a slip. -/
private theorem neverRejects_handle (item : Item) :
    NeverRejects (handle item) := by
  cases item <;> first | exact failsOnly_ok _ | exact neverRejects_slip _

/-- What an item has under a key is found, or the key cannot be one. -/
private theorem neverRejects_read (g : Graph) (key : Value) (item : Item) :
    NeverRejects (g.read key item) := by
  unfold read
  split
  · exact Entries.neverRejects_find _ _
  · split
    · exact failsOnly_ok _
    · exact failsOnly_ok _
    · exact Entries.neverRejects_find _ _
  · exact neverRejects_slip _

/-- Elements are looked up by their ids. -/
private theorem neverRejects_select (index : Index) (ids : List Value) :
    NeverRejects (select index ids) := by
  unfold select
  split
  · exact failsOnly_ok _
  · exact (failsOnly_mapM (fun id => Entries.neverRejects_find id index)
        ids).bind fun _ =>
      failsOnly_ok _

/-- Where types do not fit, a test is not passed. -/
private theorem neverRejects_unlessType {answer : Checked Bool}
    (h : NeverRejects answer) :
    NeverRejects (unlessType answer) := by
  unfold unlessType
  split
  · exact failsOnly_ok _
  · exact h

/-- A test that the server does not know is none of the library's rules. -/
private theorem neverRejects_passes (v test : Value) :
    NeverRejects (passes v test) := by
  unfold passes
  split
  · next op x bound =>
    have hchoice := Value.neverRejects_contains x v
    cases op
    case within => exact neverRejects_unlessType hchoice
    case without => exact neverRejects_unlessType (hchoice.map _)
    case containing | notContaining =>
      simp only
      split <;> exact failsOnly_ok _
    case other => exact failsOnly_error rfl
    all_goals exact failsOnly_ok _
  · exact failsOnly_ok _

/-- A test of a property reads it first. -/
private theorem neverRejects_has (g : Graph) (key test : Value) (item : Item) :
    NeverRejects (g.has key test item) := by
  refine (neverRejects_read g key item).bind fun found => ?_
  split
  · exact neverRejects_passes _ _
  · exact failsOnly_ok _

/-- A test of the label asks for an element. -/
private theorem neverRejects_hasLabel (g : Graph) (labels : List Value)
    (item : Item) : NeverRejects (g.hasLabel labels item) :=
  (neverRejects_handle item).bind fun _ => failsOnly_ok _

/-- A bound that is no number is a slip. -/
private theorem neverRejects_sliceBound (v : Value) :
    NeverRejects (sliceBound v) := by
  unfold sliceBound
  split
  · exact failsOnly_ok _
  · exact failsOnly_ok _
  · exact failsOnly_ok _
  · exact neverRejects_slip _

/-- A row needs both ends of an edge. -/
private theorem neverRejects_row (g : Graph) (keys : List Value)
    (e : Element) : NeverRejects (g.row keys e) := by
  have hends : ∀ ends, NeverRejects (g.endRows ends) := by
    intro ends
    unfold endRows
    split
    · exact failsOnly_ok _
    · exact neverRejects_slip _
  unfold row
  split
  · exact (hends _).bind fun _ => failsOnly_ok _
  · exact failsOnly_ok _

/-- Properties are those of an element. -/
private theorem neverRejects_properties (g : Graph) (keys : List Value)
    (item : Item) : NeverRejects (g.properties keys item) :=
  (neverRejects_handle item).bind fun _ => failsOnly_ok _

/-- Only an edge has an end to start at. -/
private theorem neverRejects_originOf (g : Graph) (edge : Item) :
    NeverRejects (g.originOf edge) := by
  refine (neverRejects_handle edge).bind fun h => ?_
  split
  · exact failsOnly_ok _
  · exact neverRejects_slip _

-- ================================================================= sorting

/-- A key of an order is an argument, or is missing. -/
private theorem neverRejects_sortKey (args : List Value) :
    NeverRejects (sortKey args) := by
  unfold sortKey
  split
  · exact neverRejects_slip _
  · exact failsOnly_ok _
  · exact failsOnly_ok _
  · exact failsOnly_ok _

/-- All keys of an order, one step after the other. -/
private theorem neverRejects_sortKeys (steps : List Step) :
    NeverRejects (sortKeys steps) := by
  induction steps with
  | nil => exact failsOnly_ok _
  | cons step steps ih =>
      unfold sortKeys
      split
      · next rest heq =>
        cases heq
        exact (neverRejects_sortKey _).bind fun _ => ih.bind fun _ =>
          failsOnly_ok _
      · exact failsOnly_ok _

/-- Values without an order cannot be compared; that is a slip. -/
private theorem neverRejects_before (a b : Value × Item) :
    NeverRejects (before a b) := by
  unfold before
  split
  · exact failsOnly_ok _
  · exact neverRejects_slip _

/-- To sort by one key is to read it of each item and to compare what was
read. -/
private theorem neverRejects_sortBy (g : Graph) (key : Value × Sorting)
    (items : List Item) :
    NeverRejects (g.sortBy key items) := by
  refine (failsOnly_mapM (fun item => ?_) items).bind fun keyed => ?_
  · exact (neverRejects_read g key.1 item).bind fun _ => failsOnly_ok _
  · split
    · exact (Sorting.failsOnly_sort neverRejects_before _).bind fun _ =>
        failsOnly_ok _
    · exact (Sorting.failsOnly_sort neverRejects_before _).bind fun _ =>
        failsOnly_ok _

/-- And to sort by all of them is to do so from the last to the first. -/
private theorem neverRejects_sortAll (g : Graph)
    (keys : List (Value × Sorting)) (items : List Item) :
    NeverRejects (g.sortAll keys items) := by
  induction keys with
  | nil => exact failsOnly_ok _
  | cons key keys ih => exact ih.bind fun _ => neverRejects_sortBy g key _

-- ================================================================ changing

/-- A value that cannot be a key is written nowhere, and is no rejection. -/
private theorem accepts_setProperty (key value : Value) (item : Item) :
    Accepts (setProperty key value item) := by
  unfold setProperty
  refine (accepts_ask fun _ => neverRejects_handle item).bind fun h => ?_
  split
  · refine (accepts_change _).bind fun e => ?_
    have hrenamed : ∀ enter : Graph → Graph, Accepts (do
        modify fun g => g.update h fun e => { e with id := value }
        if !value.isKey then fail value.keyFault
        modify enter : Run Unit) := by
      intro enter
      refine (accepts_modify _).bind fun _ => ?_
      split
      · exact (accepts_keyFault value).bind fun _ => accepts_modify enter
      · exact accepts_modify enter
    split
    · exact (accepts_modify _).bind fun _ => hrenamed _
    · exact (accepts_modify _).bind fun _ => hrenamed _
  · split
    · exact (accepts_keyFault key).bind fun _ => accepts_modify _
    · exact accepts_modify _

/-- What is no element cannot be dropped. -/
private theorem accepts_drop (item : Item) : Accepts (drop item) := by
  cases item <;> first | exact accepts_modify _ | exact accepts_slip _

/-- An edge that would start elsewhere than at a vertex is refused, in the
words of the server. -/
private theorem accepts_startEdge (args : List Value) (item : Item) :
    Accepts (startEdge args item) := by
  unfold startEdge
  split
  · exact accepts_slip _
  · split
    · refine (accepts_change _).bind fun edge => ?_
      split
      · exact accepts_fail rfl
      · exact (accepts_change _).bind fun _ => accepts_pure _
    · exact accepts_fail rfl

/-- And so is one without a target. -/
private theorem accepts_link (edge : Item) (found : List Item) :
    Accepts (link edge found) := by
  unfold link
  split
  · exact accepts_fail rfl
  · exact (accepts_ask fun _ => neverRejects_handle edge).bind fun _ =>
      accepts_modify _

/-- Edges enter without a question. -/
private theorem accepts_enterEdges (edges : List Item) :
    Accepts (enterEdges edges) := by
  refine (composes_accepts.each fun edge _ => ?_).bind fun _ => accepts_pure _
  exact (accepts_ask fun _ => neverRejects_handle edge).bind fun _ =>
    accepts_modify _

-- =================================================================== steps

/-- A step that stands for itself rejects nothing. -/
private theorem accepts_perform (name : StepName) (args : List Value)
    (items : List Item) : Accepts (perform name args items) := by
  have haccept := composes_accepts
  have hsource : ∀ index ids, Accepts (source index ids items) :=
    fun index ids => (haccept.each fun _ _ => accepts_ask fun _ =>
      neverRejects_select _ _).bind fun _ => accepts_pure _
  unfold perform
  split
  · exact hsource _ _
  · exact hsource _ _
  · exact haccept.keep fun item _ => accepts_ask fun g =>
      neverRejects_hasLabel g _ item
  · exact haccept.keep fun item _ => accepts_ask fun g =>
      neverRejects_has g _ _ item
  · exact accepts_pure items
  · refine haccept.each fun item _ => accepts_ask fun g => ?_
    refine (neverRejects_handle item).bind fun h => ?_
    exact (neverRejects_row g _ _).bind fun _ => failsOnly_ok _
  · exact (accepts_ask fun _ => neverRejects_sliceBound _).bind fun _ =>
      accepts_pure _
  · exact (accepts_ask fun _ => neverRejects_sliceBound _).bind fun _ =>
      accepts_pure _
  · exact accepts_pure _
  · exact accepts_pure _
  · exact (haccept.each fun item _ => accepts_drop item).bind fun _ =>
      accepts_pure _
  · exact haccept.each fun _ _ => (accepts_change _).bind fun _ =>
      accepts_pure _
  · exact (haccept.each fun item _ => accepts_setProperty _ _ item).bind
      fun _ => accepts_pure _
  · refine (haccept.each fun item _ => accepts_ask fun g => ?_).bind
      fun _ => accepts_pure _
    exact neverRejects_properties g _ item
  all_goals exact accepts_fail rfl

/-- No step rejects anything, whatever its arguments are. -/
theorem sustains_accepts : Sustains .all fun _ r => Accepts r where
  composes := composes_accepts
  perform _ items := accepts_perform _ _ items
  sort rest items := accepts_ask fun g =>
    (neverRejects_sortKeys rest).bind fun keys =>
      neverRejects_sortAll g keys items
  start _ item := accepts_startEdge _ item
  origin edge := accepts_ask fun g => neverRejects_originOf g edge
  link _ edge found := accepts_link edge found
  enter _ _ edges := accepts_enterEdges edges

/-- No traversal fails on a graph with a rejection. -/
theorem neverRejects_evaluate (g : Graph) (steps : List Step) :
    NeverRejects (g.evaluate steps).1 :=
  sustains_accepts.run steps trivial .plain [.start] g

-- ================================================================= results

/-- An element is given as a value, an edge with both of its ends. -/
private theorem neverRejects_elementValue (g : Graph) (e : Element) :
    NeverRejects (g.elementValue e) := by
  unfold elementValue
  split
  · exact failsOnly_ok _
  · split
    · exact failsOnly_ok _
    · exact neverRejects_slip _

mutual

theorem neverRejects_result (g : Graph) :
    ∀ (item : Item), NeverRejects (g.result item)
  | .start => failsOnly_ok _
  | .element h => neverRejects_elementValue g (g.element h)
  | .property _ _ => failsOnly_ok _
  | .row _ => failsOnly_ok _
  | .number _ => failsOnly_ok _
  | .group items => (neverRejects_results g items).bind fun _ => failsOnly_ok _

theorem neverRejects_results (g : Graph) :
    ∀ (items : List Item), NeverRejects (g.results items)
  | [] => failsOnly_ok _
  | item :: items =>
    (neverRejects_result g item).bind fun _ =>
      (neverRejects_results g items).bind fun _ => failsOnly_ok _

end

end Graph

namespace Server

/-- An answer is complete with all items, with the first, or with none. -/
private theorem neverRejects_complete (g : Graph) (mode : Mode)
    (items : List Item) : NeverRejects (complete g mode items) := by
  unfold complete
  split
  · exact failsOnly_ok _
  · split
    · exact failsOnly_ok _
    · exact Graph.neverRejects_result g _
  · exact (Graph.neverRejects_results g _).map _

/-- What the graph answers is no rejection. -/
theorem neverRejects_evaluate (s : Server) (steps : List Step) (mode : Mode) :
    NeverRejects (s.evaluate steps mode).1 := by
  have hgo := s.graph.neverRejects_evaluate steps
  unfold evaluate
  rcases hrun : s.graph.evaluate steps with ⟨e | items, g⟩
  · rw [hrun] at hgo
    exact failsOnly_error (hgo e rfl)
  · exact neverRejects_complete g mode items

/-- A submission is rejected only if that failure has been prepared, and is
then used up. -/
theorem submit_rejects (s : Server) (steps : List Step) (mode : Mode) :
    ∃ used, s.failures = used ++ (s.submit steps mode).2.failures ∧
      ∀ e, (s.submit steps mode).1 = .error e → e.isRejection = true →
      e ∈ used := by
  rcases s with ⟨graph, failures, replies, reconnectFailure, closed⟩
  cases failures with
  | cons e rest =>
      refine ⟨[e], rfl, fun f hf _ => ?_⟩
      rw [← Except.error.inj hf]
      exact List.mem_singleton_self e
  | nil =>
      cases replies with
      | cons v rest => exact ⟨[], rfl, fun f hf => (nomatch hf)⟩
      | nil =>
          have hgo := neverRejects_evaluate ⟨graph, [], [], reconnectFailure,
            closed⟩ steps mode
          refine ⟨[], ?_, fun f hf hrej => ?_⟩
          · unfold submit evaluate
            simp only
            split <;> rfl
          · rw [hgo f hf] at hrej
            cases hrej

end Server

end GraphMapper

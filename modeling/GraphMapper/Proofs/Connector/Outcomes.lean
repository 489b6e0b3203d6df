/-
What a connector does when nothing is in its way.

A server that has no answer prepared, and no failure either, runs every
traversal on its graph, and so the first submission is the only one, unless it
fails in a way that may pass. An act is then known to the last: what comes of
it, and the graph that it leaves (`Act.Does`), or that it fails (`Act.Fails`).
As with the triples of answers, what is known of operations is put together as
these are.

Chain: `Connector.Answers` for the triples; used by the modules that tell what
a call does exactly, `Connector.Creation`, `Connector.Records` and
`Connector.Rejection` among them.
-/
import GraphMapper.Proofs.Connector.Answers

namespace GraphMapper

namespace Act

variable {α β : Type} {name : String} {m : Model} {g g' g'' : Graph} {a : α}
  {b : β} {a' : Value}

/-- A model is found by its name, and the server has nothing to answer with but
its graph. -/
structure Ready (name : String) (m : Model) (g : Graph) (c : Connector) : Prop
    extends Facing name m g c where
  failures : c.server.failures = []

/-- The act succeeds with a result, on one graph, and leaves another. -/
def Does (name : String) (m : Model) (g : Graph) (act : Act α) (a : α)
    (g' : Graph) : Prop :=
  ∀ c, Ready name m g c → ∃ c', act c = (.ok a, c') ∧ Ready name m g' c'

/-- To answer does nothing else. -/
theorem does_pure (a : α) : Does name m g (pure a) a g :=
  fun c hc => ⟨c, rfl, hc⟩

/-- A check that is passed gives what it has checked. -/
theorem does_check {r : Checked α} (h : r = .ok a) :
    Does name m g (check r) a g :=
  fun c hc => ⟨c, by rw [check, h], hc⟩

/-- The model is there. -/
theorem does_model :
    Does name m g (ask fun c => c.registry.get (some name)) m g :=
  fun c hc => ⟨c, by rw [ask, hc.model], hc⟩

/-- One act after the other does both. -/
theorem Does.bind {first : Act α} {k : α → Act β}
    (hfirst : Does name m g first a g') (hk : Does name m g' (k a) b g'') :
    Does name m g (first >>= k) b g'' := by
  intro c hc
  obtain ⟨c', hgo, hc'⟩ := hfirst c hc
  rw [bind_apply_ok hgo]
  exact hk c' hc'

/-- Reads that leave the graph may be done one after the other. -/
theorem does_mapM {ι : Type} {act : ι → Act α} {result : ι → α}
    (h : ∀ i, Does name m g (act i) (result i) g) (is : List ι) :
    Does name m g (is.mapM act) (is.map result) g := by
  induction is with
  | nil => exact does_pure []
  | cons i is ih =>
      rw [List.mapM_cons]
      exact (h i).bind (ih.bind (does_pure _))

/-- An observation changes nothing that matters here. -/
theorem Does.observed {act : Act α} (h : Does name m g act a g')
    (operation : String) (model : Option String) :
    Does name m g (observed operation model act) a g' := by
  intro c hc
  obtain ⟨c', hgo, hc'⟩ := h c hc
  have hresult : (Act.observed operation model act c).1 = .ok a := by
    rw [observed_fst, hgo]
  refine ⟨(Act.observed operation model act c).2, Prod.ext hresult rfl, ?_⟩
  rcases observed_snd operation model act c with hsame | ⟨ok, code, hnoted⟩
  · rw [hsame, hgo]
    exact hc'
  · rw [hnoted, hgo]
    exact ⟨⟨hc'.model, hc'.graph, hc'.replies⟩, hc'.failures⟩

/-- What is built from no source is the steps of the operation. -/
theorem does_build {operation : Model → Build Unit} {steps : List Step}
    (h : Build.traversalFrom [] (operation m) = .ok steps) :
    Does name m g (build (some name) (pure []) operation) steps g :=
  (does_pure []).bind (does_model.bind (does_check h))

/-- The first submission is answered from the graph. -/
theorem does_submit {steps : List Step} {mode : Mode} {items : List Item}
    {raw : Value} (hgo : g.evaluate steps = (.ok items, g'))
    (hraw : Server.complete g' mode items = .ok raw) (again : Nat) :
    Does name m g (run (Connector.host.submitAgain m steps mode again)) raw
      g' := by
  intro c hc
  have hserver : c.server.submit steps mode
      = (.ok raw, { c.server with graph := g' }) := by
    unfold Server.submit
    rw [hc.failures, hc.replies]
    simp only [Server.evaluate, hc.graph, hgo, hraw]
  have hsubmit : Connector.host.submit steps mode c
      = (.ok raw, { c.note (.submitted mode steps) with
          server := { c.server with graph := g' } }) := by
    show ((c.server.submit steps mode).1,
      { c.note (.submitted mode
        steps) with server := (c.server.submit steps mode).2 }) = _
    rw [hserver]
  refine ⟨{ c.note
    (.submitted mode steps) with server := { c.server with graph := g' } }, ?_,
    ⟨⟨hc.model, rfl, hc.replies⟩, hc.failures⟩⟩
  unfold run
  rcases Connector.host.submitAgain_cases m steps mode again c with
    ⟨v, c', hfirst, hend⟩ | ⟨e, c', hfirst, -⟩
  · rw [hend, ← hfirst, hsubmit]
  · rw [hsubmit] at hfirst
    cases hfirst

/-- What is executed is run on the graph. -/
theorem does_execute (hname : name ≠ "") {steps : List Step} {o : Options}
    {mode : Mode} {items : List Item} {raw v : Value} (ho : o.joined = none)
    (hgo : g.evaluate steps = (.ok items, g'))
    (hraw : Server.complete g' mode items = .ok raw)
    (hfinish : o.finish (some m) mode raw = .ok v) :
    Does name m g (execute (some name) steps o mode) v g' := by
  rw [execute_alone ho, modelFor_named hname]
  refine (does_model.bind (does_pure (some m))).bind ?_
  exact (does_submit hgo hraw m.retry.attempts).bind (does_check hfinish)

/-- Outside of transactions a change starts at nothing. -/
theorem mutate_alone {o : Options} (ho : o.joined = none)
    (model : Option String) (operation : Model → Build Unit) (mode : Mode) :
    mutate model operation o mode
      = (do
        let steps ← build model (pure []) operation
        execute model steps o mode) := by
  have hsource : source o = pure [] := by
    unfold source
    rw [ho]
  unfold mutate
  rw [hsource]

/-- A change that is submitted for its effect gives nothing. -/
theorem does_mutate_iterate (hname : name ≠ "") {steps : List Step}
    {o : Options} {operation : Model → Build Unit} {items : List Item}
    (ho : o.joined = none)
    (hsteps : Build.traversalFrom [] (operation m) = .ok steps)
    (hgo : g.evaluate steps = (.ok items, g')) :
    Does name m g (mutate (some name) operation o .iterate) .null g' := by
  have hfinish : o.finish (some m) .iterate .null = .ok .null := by
    unfold Options.finish
    cases o.parse <;> rfl
  rw [mutate_alone ho]
  exact (does_build hsteps).bind (does_execute hname ho hgo rfl hfinish)

/-- A change makes something of the result of its traversal. -/
theorem does_changing {options : Value} {o : Options} {mode : Mode}
    {builder : Model → Build Unit} {k : Options → Value → Act Value}
    {v : Value} (ho : Options.ofValue options = .ok o)
    (hgo : Does name m g (mutate (some name) builder o mode) v g')
    (hk : k o v = pure a') (operation : String) :
    Does name m g (changing operation (some name) builder mode options k) a'
      g' := by
  refine (does_check ho).bind (Does.observed ?_ _ _)
  refine hgo.bind ?_
  rw [hk]
  exact does_pure _

-- ================================================================== failures

/-- The act fails on a graph. -/
def Fails (name : String) (m : Model) (g : Graph) (act : Act α) : Prop :=
  ∀ c, Ready name m g c → ∃ e c', act c = (.error e, c')

/-- A check that is not passed fails. -/
private theorem fails_check {r : Checked α} {e : Failure} (h : r = .error e) :
    Fails name m g (check r) := fun c _ => ⟨e, c, by rw [check, h]⟩

/-- Nothing comes after a failure. -/
theorem Fails.bind {first : Act α} (h : Fails name m g first) (k : α → Act β) :
    Fails name m g (first >>= k) := by
  intro c hc
  obtain ⟨e, c', hgo⟩ := h c hc
  exact ⟨e, c', bind_apply_error hgo⟩

/-- What succeeds may be followed by what fails. -/
theorem Does.fails {first : Act α} {k : α → Act β}
    (hfirst : Does name m g first a g') (hk : Fails name m g' (k a)) :
    Fails name m g (first >>= k) := by
  intro c hc
  obtain ⟨c', hgo, hc'⟩ := hfirst c hc
  rw [bind_apply_ok hgo]
  exact hk c' hc'

/-- Nor does observing help. -/
theorem Fails.observed {act : Act α} (h : Fails name m g act)
    (operation : String) (model : Option String) :
    Fails name m g (observed operation model act) := by
  intro c hc
  obtain ⟨e, c', hgo⟩ := h c hc
  refine ⟨e, (Act.observed operation model act c).2, Prod.ext ?_ rfl⟩
  rw [observed_fst, hgo]

/-- What cannot be built fails. -/
theorem fails_build {operation : Model → Build Unit} {e : Failure}
    (h : Build.traversalFrom [] (operation m) = .error e) :
    Fails name m g (build (some name) (pure []) operation) :=
  (does_pure []).fails (does_model.fails (fails_check h))

/-- A change fails with its traversal. -/
theorem fails_changing {options : Value} {o : Options} {mode : Mode}
    {builder : Model → Build Unit} (ho : Options.ofValue options = .ok o)
    (hgo : Fails name m g (mutate (some name) builder o mode))
    (k : Options → Value → Act Value) (operation : String) :
    Fails name m g (changing operation (some name) builder mode options k) :=
  (does_check ho).fails ((hgo.bind _).observed _ _)

/-- A failure that does not pass is not tried again. -/
private theorem fails_submit {steps : List Step} {mode : Mode} {e : Failure}
    (hgo : g.evaluate steps = (.error e, g')) (he : e.isTransient = false)
    (again : Nat) :
    Fails name m g (run (Connector.host.submitAgain m steps mode again)) := by
  intro c hc
  have hserver : (c.server.submit steps mode).1 = .error e := by
    unfold Server.submit
    rw [hc.failures, hc.replies]
    simp only [Server.evaluate, hc.graph, hgo]
  have hsubmit : (Connector.host.submit steps mode c).1 = .error e := hserver
  have hpasses : ∀ f, (Connector.host.submit steps mode c).1 = .error f →
      f.isTransient = false := by
    intro f hf
    obtain rfl := Except.error.inj (hsubmit.symm.trans hf)
    exact he
  refine ⟨e.raised, (Connector.host.submit steps mode c).2, ?_⟩
  unfold run
  rw [Host.submitAgain_last (.inr hpasses), hsubmit]
  rfl

/-- An execution fails with its submission. -/
theorem fails_execute (hname : name ≠ "") {steps : List Step} {o : Options}
    {mode : Mode} {e : Failure} (ho : o.joined = none)
    (hgo : g.evaluate steps = (.error e, g')) (he : e.isTransient = false) :
    Fails name m g (execute (some name) steps o mode) := by
  rw [execute_alone ho, modelFor_named hname]
  refine (does_model.bind (does_pure (some m))).fails ?_
  exact (fails_submit hgo he m.retry.attempts).bind _

/-- Or it fails at what is made of its result. -/
theorem fails_finish (hname : name ≠ "") {steps : List Step} {o : Options}
    {mode : Mode} {items : List Item} {raw : Value} {e : Failure}
    (ho : o.joined = none) (hgo : g.evaluate steps = (.ok items, g'))
    (hraw : Server.complete g' mode items = .ok raw)
    (hfinish : o.finish (some m) mode raw = .error e) :
    Fails name m g (execute (some name) steps o mode) := by
  rw [execute_alone ho, modelFor_named hname]
  refine (does_model.bind (does_pure (some m))).fails ?_
  exact (does_submit hgo hraw m.retry.attempts).fails (fails_check hfinish)

end Act

end GraphMapper

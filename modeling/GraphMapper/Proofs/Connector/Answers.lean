/-
What the answers of a connector say.

As long as a server has no answer prepared, whatever it answers has come from
its graph. A call that only reads leaves that graph as it is, through all its
repetitions, so its answer is told by the one run of its traversal on the graph
(`ensures_execute`). Submissions may fail on the way, for any reason: nothing
is said of a call that fails.

# Triples

What has to hold of a connector before an act, and still holds after it, is
kept apart from what holds of the result of the act, if it has one
(`Act.Ensures`). The triples can be put together as operations are.
-/
import GraphMapper.Proofs.Connector.Commit
import GraphMapper.Proofs.Execution.Script

namespace GraphMapper

-- ============================================================= repetitions

namespace Host

variable {σ : Type}

/-- What a submission that failed with `e` may fail with in the end: with `e`
itself, or with a slip on the way to the next submission. -/
def PassedOn (e f : Failure) : Prop := f = e ∨ ∃ s, f = .slip s

private theorem prepareRetry_passes {host : Host σ} {m : Model} {e f : Failure}
    {reconnect : Bool} {s s' : σ}
    (h : host.prepareRetry m e reconnect s = (.error f, s')) :
    PassedOn e f := by
  unfold prepareRetry at h
  split at h
  · exact .inl (Except.error.inj (Prod.mk.inj h).1).symm
  · simp only at h
    split at h
    · next slip hwait =>
      rw [← Except.error.inj (Prod.mk.inj h).1]
      exact .inr ⟨_, waitSeconds_eq_error hwait⟩
    · cases (Prod.mk.inj h).1

/-- A submission that may be repeated ends with its answer or with a failure,
be it one of what is done before a repetition; or it goes on with less
budget. -/
theorem submitAgain_cases (host : Host σ) (m : Model) (steps : List Step)
    (mode : Mode) (left : Nat) (s : σ) :
    (∃ v s', host.submit steps mode s = (.ok v, s') ∧
      host.submitAgain m steps mode left s = (.ok v, s')) ∨
    ∃ e s', host.submit steps mode s = (.error e, s') ∧
      ((∃ f, PassedOn e f ∧
          host.submitAgain m steps mode left s = (.error f, s')) ∨
        ∃ reconnect,
          (∃ f, PassedOn e f ∧ host.submitAgain m steps mode left s
            = (.error f, (host.prepareRetry m e reconnect s').2)) ∨
          ∃ less, left = less + 1 ∧ host.submitAgain m steps mode left s
            = host.submitAgain m steps mode less
              (host.prepareRetry m e reconnect s').2) := by
  rcases hsubmit : host.submit steps mode s with ⟨e | v, s'⟩
  · refine .inr ⟨e, s', rfl, ?_⟩
    -- the submission failed: the decision may itself fail, on the error's text
    cases hdecision : RetryDecision.ofFailure e (some m) with
    | error f =>
        have hpassed : PassedOn e f := by
          rw [RetryDecision.ofFailure_eq] at hdecision
          split at hdecision
          · cases hdecision
          · rw [← Except.error.inj hdecision]
            exact e.raised_eq_or.imp_right fun htext =>
              htext.elim (fun h => ⟨_, h⟩) fun h => ⟨_, h⟩
        refine .inl ⟨f, hpassed, ?_⟩
        unfold submitAgain
        cases left <;> simp only [hsubmit, hdecision]
    | ok decision =>
        -- a decision was made: it is used only while attempts are left
        cases left with
        | zero =>
            refine .inl ⟨e, .inl rfl, ?_⟩
            unfold submitAgain
            simp only [hsubmit, hdecision]
        | succ less =>
            by_cases hagain : decision.retryable = true
            · refine .inr ⟨decision.reconnect, ?_⟩
              rcases hready : host.prepareRetry m e decision.reconnect s' with
                ⟨f | _, s''⟩
              · refine .inl ⟨f, prepareRetry_passes hready, ?_⟩
                rw [submitAgain]
                simp only [hsubmit, hdecision, if_pos hagain, hready]
              · refine .inr ⟨less, rfl, ?_⟩
                rw [submitAgain]
                simp only [hsubmit, hdecision, if_pos hagain, hready]
            · refine .inl ⟨e, .inl rfl, ?_⟩
              rw [submitAgain]
              simp only [hsubmit, hdecision, if_neg hagain]
  · refine .inl ⟨v, s', rfl, ?_⟩
    unfold submitAgain
    cases left <;> simp only [hsubmit]

end Host

-- ================================================================= triples

namespace Act

variable {α β : Type} {P : Connector → Prop} {Q : α → Prop}

/-- What holds before the act holds after it, and if there is a result, it is
as it should be. -/
def Ensures (P : Connector → Prop) (act : Act α) (Q : α → Prop) : Prop :=
  ∀ c, P c → P (act c).2 ∧ Yields (act c).1 Q

/-- Neither a note of an effect nor the passage of time breaks it. -/
abbrev Lasting (P : Connector → Prop) : Prop := Frame fun c c' => P c → P c'

theorem ensures_pure {a : α} (h : Q a) : Ensures P (pure a) Q :=
  fun _ hc => ⟨hc, yields_pure h⟩

theorem ensures_check {r : Checked α} (h : Yields r Q) :
    Ensures P (check r) Q :=
  fun _ hc => ⟨hc, h⟩

theorem ensures_ask {f : Connector → Checked α}
    (h : ∀ c, P c → Yields (f c) Q) :
    Ensures P (ask f) Q := fun c hc => ⟨hc, h c hc⟩

theorem Ensures.bind {a : Act α} {k : α → Act β} {R : β → Prop}
    (ha : Ensures P a Q) (hk : ∀ x, Q x → Ensures P (k x) R) :
    Ensures P (a >>= k) R := by
  intro c hc
  obtain ⟨hafter, hx⟩ := ha c hc
  rw [bind_apply]
  rcases hrun : a c with ⟨e | x, c'⟩
  · rw [hrun] at hafter
    exact ⟨hafter, fun b hb => nomatch hb⟩
  · rw [hrun] at hafter hx
    exact hk x (hx x rfl) c' hafter

theorem Ensures.observed (hP : Lasting P) {act : Act α} (h : Ensures P act Q)
    (operation : String) (model : Option String) :
    Ensures P (observed operation model act) Q := by
  intro c hc
  obtain ⟨hafter, hx⟩ := h c hc
  refine ⟨?_, by rw [observed_fst]; exact hx⟩
  rcases observed_snd operation model act c with heq | ⟨ok, code, heq⟩
  · rw [heq]
    exact hafter
  · rw [heq]
    exact hP.note _ _ rfl (fun _ _ => trivial) hafter

/-- Repetitions ensure what one submission does. -/
theorem ensures_submitAgain (hP : Lasting P) {steps : List Step} {mode : Mode}
    {Q : Value → Prop} (hsubmit : Ensures P (submitOnce steps mode) Q)
    (m : Model) (left : Nat) :
    Ensures P (run (Connector.host.submitAgain m steps mode left)) Q := by
  induction left using Nat.strongRecOn with
  | _ left ih =>
      intro c hc
      obtain ⟨hafter, hanswer⟩ := hsubmit c hc
      unfold submitOnce run at hafter hanswer
      unfold run
      rcases Connector.host.submitAgain_cases m steps mode left c with
        ⟨v, c', hfirst, hgo⟩ | ⟨e, c', hfirst, hgo⟩
      · rw [hfirst] at hafter hanswer
        rw [hgo]
        exact ⟨hafter, hanswer⟩
      · rw [hfirst] at hafter
        rcases hgo with ⟨f, -, hgo⟩ | ⟨reconnect, hgo⟩
        · rw [hgo]
          exact ⟨hafter, fun v hv => nomatch hv⟩
        · have hready : P (Connector.host.prepareRetry m e reconnect c').2 :=
            keeps_prepareRetry hP m e reconnect c' hafter
          rcases hgo with ⟨f, -, hgo⟩ | ⟨less, rfl, hgo⟩
          · rw [hgo]
            exact ⟨hready, fun v hv => nomatch hv⟩
          · rw [hgo]
            exact ih less (Nat.lt_succ_self less) _ hready

-- ================================================================= reading

/-- A model is found by its name, and the server answers from a graph. -/
structure Facing (name : String) (m : Model) (g : Graph)
    (c : Connector) : Prop where
  model : c.registry.get (some name) = .ok m
  graph : c.server.graph = g
  replies : c.server.replies = []

variable {name : String} {m : Model} {g : Graph}

theorem lasting_facing : Lasting (Facing name m g) where
  refl _ h := h
  trans h₁ h₂ h := h₂ (h₁ h)
  note _ _ _ _ h := ⟨h.model, h.graph, h.replies⟩
  advance _ _ h := ⟨h.model, h.graph, h.replies⟩

/-- What a traversal gives is completed from the items that it finds. -/
def Completed (g : Graph) (steps : List Step) (mode : Mode)
    (raw : Value) : Prop :=
  ∃ items, g.evaluate steps = (.ok items, g) ∧
    Server.complete g mode items = .ok raw

theorem ensures_submitOnce {steps : List Step}
    (hsteps : Graph.readsOnly steps = true) (mode : Mode) :
    Ensures (Facing name m g) (submitOnce steps mode)
      (Completed g steps mode) := by
  intro c hc
  have hsame : (c.server.graph.evaluate steps).2 = c.server.graph :=
    Graph.run_reads steps hsteps .plain [.start] c.server.graph
  have hserver : (c.server.submit steps mode).2.graph = g
      ∧ (c.server.submit steps mode).2.replies = []
      ∧ Yields (c.server.submit steps mode).1 (Completed g steps mode) := by
    unfold Server.submit
    rw [hc.replies]
    cases c.server.failures with
    | cons e failures => exact ⟨hc.graph, rfl, fun v hv => nomatch hv⟩
    | nil =>
        simp only [Server.evaluate]
        rw [hc.graph] at hsame ⊢
        rcases hrun : g.evaluate steps with ⟨e | items, g'⟩
        · rw [hrun] at hsame
          exact ⟨hsame, hc.replies, fun v hv => nomatch hv⟩
        · rw [hrun] at hsame
          rw [show g' = g from hsame] at hrun ⊢
          exact ⟨rfl, hc.replies, fun raw hraw => ⟨items, hrun, hraw⟩⟩
  exact ⟨⟨hc.model, hserver.1, hserver.2.1⟩, hserver.2.2⟩

/-- Outside of transactions an execution submits, and then makes something of
the result. -/
theorem execute_alone {o : Options} (ho : o.joined = none)
    (model : Option String) (steps : List Step) (mode : Mode) :
    execute model steps o mode = (do
      let found ← modelFor model
      let raw ← run (Connector.host.submitWithRetry found steps mode)
      check (o.finish found mode raw)) := by
  have hfinish : ∀ (found : Option Model) (raw : Value),
      (if mode = .iterate then pure .null
        else if o.parse then
          check (Result.present ((found.map Model.isEdge).getD false) raw)
        else pure raw : Act Value) = check (o.finish found mode raw) := by
    intro found raw
    unfold Options.finish
    split
    · rfl
    · split <;> rfl
  unfold execute
  rw [ho]
  simp only [hfinish]

/-- The model of a name that is one. -/
theorem modelFor_named (hname : name ≠ "") : modelFor (some name)
    = (do pure (some (← ask fun c => c.registry.get (some name)))) := by
  have hnamed : named (some name) = some name := by
    simp [named, Option.filter, hname]
  unfold modelFor
  rw [hnamed]

/-- The answer of an execution that reads, outside of a transaction. -/
theorem ensures_execute (hname : name ≠ "") {steps : List Step}
    (hsteps : Graph.readsOnly steps = true) {o : Options}
    (ho : o.joined = none) (mode : Mode) :
    Ensures (Facing name m g) (execute (some name) steps o mode) fun v =>
      ∃ raw, Completed g steps mode raw ∧
          o.finish (some m) mode raw = .ok v := by
  rw [execute_alone ho, modelFor_named hname]
  have hmodel : Ensures (Facing name m g)
      (do pure (some (← ask fun c => c.registry.get (some name)))) fun found =>
        found = some m :=
    (ensures_ask fun c hc x hx => Except.ok.inj (hx.symm.trans hc.model)).bind
        fun x hx =>
      ensures_pure (congrArg some hx)
  refine hmodel.bind fun found hfound => ?_
  rw [hfound]
  refine (ensures_submitAgain lasting_facing (ensures_submitOnce hsteps mode) m
    _).bind fun raw hraw => ?_
  exact ensures_check fun v hv => ⟨raw, hraw, hv⟩

/-- A read is built from nothing for the model. -/
theorem ensures_build (operation : Model → Build Unit) :
    Ensures (Facing name m g) (build (some name) (pure []) operation)
      fun steps =>
      Build.traversalFrom [] (operation m) = .ok steps := by
  refine (ensures_pure (Q := fun start => start = []) rfl).bind
    fun start hstart => ?_
  refine (ensures_ask (Q := fun found => found = m)
    fun c hc x hx => Except.ok.inj (hx.symm.trans hc.model)).bind
      fun found hfound => ?_
  rw [hstart, hfound]
  exact ensures_check fun steps hsteps => hsteps

end Act

end GraphMapper

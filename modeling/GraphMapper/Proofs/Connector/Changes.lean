/-
What comes of a change outside of transactions: it is refused, or its steps are
submitted.

The steps of a change are found before anything is submitted. When that fails
the change is refused (`Act.Refused`): it fails with that failure, or with what
is looked at earlier, and nothing has happened but that this has been observed.
When it succeeds the steps are submitted, repeatedly if submissions fail in a
way that may pass, and nothing else is (`Act.Submits`). Main statement:
`changing_comes_to`.

Both outcomes say what has not happened as well: a change that is refused has
submitted nothing, and one that submits has submitted nothing but its steps.
The sink is told in either case.

Chain: `Connector.Rejection` for failures before a submission and
`Execution.Script` for what a script of failures makes of it; used by
`Connector.Single`, `Connector.Destroying`, `Connector.Ended` and
`Connector.Malformed`.
-/
import GraphMapper.Proofs.Connector.Rejection
import GraphMapper.Proofs.Execution.Script

namespace GraphMapper

variable {α β γ : Type} {c c' : Connector} {model : Option String} {m : Model}
  {e : Failure} {steps : List Step} {mode : Mode}

/-- The failure that is reported when something comes before it: that of what
comes before, if it fails. -/
def Failure.behind (before : Checked β) (e : Failure) : Failure :=
  match before with
  | .error first => first
  | .ok _ => e

namespace Act

open Connector

-- ================================================================= refusals

/-- The act fails, with a failure that other things come before, and nothing
has happened but that this has been observed. -/
def Refused (before : Checked β) (e : Failure) (act : Act α)
    (c : Connector) : Prop :=
  ∃ c', act c = (.error (e.behind before), c') ∧ Unmoved c (e.behind before) c'

variable {before : Checked β} {act : Act α}

theorem refused_of_error (h : act c = (.error (e.behind before), c)) :
    Refused before e act c :=
  ⟨c, h, unmoved_self c _⟩

theorem Refused.bind (h : Refused before e act c) (k : α → Act γ) :
    Refused before e (act >>= k) c := by
  obtain ⟨c', hgo, hunmoved⟩ := h
  exact ⟨c', bind_apply_error hgo, hunmoved⟩

/-- Observing tells the sink of the failure. -/
theorem Refused.observed (h : Refused before e act c) (operation : String)
    (model : Option String) :
    Refused before e (observed operation model act) c := by
  obtain ⟨c', hgo, hunmoved⟩ := h
  refine ⟨_, ?_, hunmoved.report operation (named model)⟩
  unfold Act.observed
  rw [hgo]

/-- What is decided first comes before the failure. -/
theorem Refused.check_bind {first : Checked α} {rest : α → Checked β}
    {k : α → Act γ} (hk : ∀ a, first = .ok a → Refused (rest a) e (k a) c) :
    Refused (first >>= rest) e (check first >>= k) c := by
  cases hfirst : first with
  | error f => exact refused_of_error (bind_apply_error rfl)
  | ok a =>
      obtain ⟨c', hgo, hunmoved⟩ := hk a hfirst
      exact ⟨c', (bind_apply_ok rfl).trans hgo, hunmoved⟩

/-- Finding the steps asks for the source and the model and decides the
rest. -/
theorem build_apply {source : Act (List Step)} (hs : Still source)
    (hmodel : c.registry.get model = .ok m) (operation : Model → Build Unit) :
    build model source operation c
      = ((source c).1 >>= fun start => Build.traversalFrom start (operation m),
        c) := by
  unfold build
  rcases hsource : source c with ⟨f | start, c₁⟩
  · obtain rfl : c₁ = c := by rw [← hs c, hsource]
    rw [bind_apply_error hsource]
    rfl
  · obtain rfl : c₁ = c := hs.eq_ok hsource
    rw [bind_apply_ok hsource,
      bind_apply_ok (show ask _ c₁ = (.ok m, c₁) by rw [ask, hmodel])]
    rfl

-- ============================================================== submissions

/-- The act submits the steps, at least once, and nothing else. -/
def Submits (steps : List Step) (mode : Mode) (act : Act α)
    (c : Connector) : Prop :=
  ∃ n, 0 < n ∧
    (act c).2.submitted = c.submitted ++ List.replicate n (mode, steps)

/-- What is done later may submit the steps again. -/
private theorem submits_of_served {n : Nat} (hn : 0 < n)
    (hfirst : c'.submitted = c.submitted ++ List.replicate n (mode, steps))
    (hrest : Served steps mode c' (act c).2) : Submits steps mode act c := by
  obtain ⟨more, hmore, -⟩ := hrest
  refine ⟨n + more, by omega, ?_⟩
  rw [hmore, hfirst, List.append_assoc, List.replicate_append_replicate]

theorem Submits.bind {k : α → Act γ} (h : Submits steps mode act c)
    (hk : ∀ x, Keeps (Served steps mode) (k x)) :
    Submits steps mode (act >>= k) c := by
  obtain ⟨n, hn, hfirst⟩ := h
  refine submits_of_served hn hfirst ?_
  rw [bind_apply]
  rcases act c with ⟨f | x, c'⟩
  · exact frame_served.refl c'
  · exact hk x c'

theorem Submits.observed (h : Submits steps mode act c) (operation : String)
    (model : Option String) :
    Submits steps mode (observed operation model act) c := by
  obtain ⟨n, hn, hfirst⟩ := h
  refine submits_of_served hn hfirst ?_
  rcases observed_snd operation model act c with hsame | ⟨ok, code, hnoted⟩
  · rw [hsame]
    exact frame_served.refl _
  · rw [hnoted]
    exact frame_served.note _ _ rfl fun _ _ => trivial

theorem submitted_submit (c : Connector) :
    (Connector.host.submit steps mode c).2.submitted
      = c.submitted ++ List.replicate 1 (mode, steps) := by
  show (c.effects ++ [Effect.submitted mode steps]).filterMap
    Effect.submission? = _
  rw [List.filterMap_append]
  rfl

/-- The first submission is made in any case. -/
private theorem submits_submitWithRetry (found : Option Model)
    (c : Connector) :
    Submits steps mode (run (Connector.host.submitWithRetry found steps mode))
      c := by
  have hframe : Frame (Served steps mode) := frame_served
  have hfirst : (Connector.host.submit steps mode c).2.submitted
      = c.submitted ++ List.replicate 1 (mode, steps) := submitted_submit c
  cases found with
  | none => exact ⟨1, Nat.one_pos, hfirst⟩
  | some m =>
      have hgo : ∀ again, Submits steps mode
          (run (Connector.host.submitAgain m steps mode again)) c := by
        intro again
        rcases Connector.host.submitAgain_cases m steps mode again c with
          ⟨v, c', hsubmit, hend⟩
            | ⟨e, c', hsubmit, ⟨f, -, hend⟩ | ⟨reconnect, hmore⟩⟩
        · rw [hsubmit] at hfirst
          exact submits_of_served Nat.one_pos hfirst (by
            rw [run, hend]
            exact hframe.refl c')
        · rw [hsubmit] at hfirst
          exact submits_of_served Nat.one_pos hfirst (by
            rw [run, hend]
            exact hframe.refl c')
        · rw [hsubmit] at hfirst
          have hready := keeps_prepareRetry hframe m e reconnect c'
          refine submits_of_served Nat.one_pos hfirst ?_
          rcases hmore with ⟨f, -, hend⟩ | ⟨less, -, hend⟩
          · rw [run, hend]
            exact hready
          · rw [run, hend]
            exact hframe.trans hready
              (keeps_submitAgain hframe served_submitOnce m less _)
      exact hgo m.retry.attempts

/-- So an execution outside of a transaction submits its steps, if its model is
there. -/
private theorem submits_execute {o : Options} (ho : o.joined = none)
    (hmodel : c.registry.get model = .ok m) :
    Submits steps mode (execute model steps o mode) c := by
  obtain ⟨found, hfound⟩ : ∃ found, modelFor model c = (.ok found, c) := by
    unfold modelFor
    cases hnamed : named model with
    | none => exact ⟨none, rfl⟩
    | some name =>
        have hname : model = some name :=
          (Option.filter_eq_some_iff.mp hnamed).1
        have hask : ask (fun c => c.registry.get (some name)) c
            = (.ok m, c) := by
          rw [ask, ← hname, hmodel]
        exact ⟨some m, bind_apply_ok hask⟩
  have hsubmits : Submits steps mode (do
      let raw ← run (Connector.host.submitWithRetry found steps mode)
      check (o.finish found mode raw)) c :=
    (submits_submitWithRetry found c).bind fun _ => keeps_check frame_served _
  obtain ⟨n, hn, hgo⟩ := hsubmits
  refine ⟨n, hn, ?_⟩
  rw [execute_alone ho, bind_apply_ok hfound]
  exact hgo

-- ==================================================================== main

/-- Outside of transactions, finding the steps of a change decides: the change
is refused, or submits them. -/
theorem changing_comes_to {options : Value} {o : Options}
    (ho : Options.ofValue options = .ok o) (halone : o.joined = none)
    (hmodel : c.registry.get model = .ok m)
    {finish : Options → Value → Act Value}
    (hfinish : ∀ o v, Keeps (Served steps mode) (finish o v))
    (operation : String) (builder : Model → Build Unit) :
    (∀ e, Build.traversalFrom [] (builder m) = .error e →
      Refused (.ok ()) e (changing operation model builder mode
        options finish) c) ∧
    (Build.traversalFrom [] (builder m) = .ok steps →
      Submits steps mode
        (changing operation model builder mode options finish) c) := by
  have hbuild : build model (source o) builder c
      = (Build.traversalFrom [] (builder m), c) := by
    -- outside a transaction the traversal starts bare
    have hsource : source o = pure [] := by
      unfold source
      rw [halone]
    rw [hsource, build_apply (still_pure []) hmodel]
    rfl
  have hchanging : changing operation model builder mode options finish c
      = observed operation model (mutate model builder o mode
        >>= finish o) c := by
    unfold changing
    rw [bind_apply_ok (show check (Options.ofValue options) c
        = (.ok o, c) by rw [check, ho])]
  constructor
  · intro e he
    have hmutate : Refused (.ok ()) e (mutate model builder o mode) c := by
      refine Refused.bind (refused_of_error ?_) _
      rw [hbuild, he]
      rfl
    obtain ⟨c', hgo, hunmoved⟩ :=
      (hmutate.bind (finish o)).observed operation model
    exact ⟨c', hchanging.trans hgo, hunmoved⟩
  · intro hsteps
    rw [hsteps] at hbuild
    have hmutate : Submits steps mode (mutate model builder o mode) c := by
      have hexecute : Submits steps mode (execute model steps o mode) c :=
        submits_execute halone hmodel
      obtain ⟨n, hn, hgo⟩ := hexecute
      refine ⟨n, hn, ?_⟩
      unfold mutate
      rw [bind_apply_ok hbuild]
      exact hgo
    obtain ⟨n, hn, hgo⟩ := (hmutate.bind (hfinish o)).observed operation model
    exact ⟨n, hn, (congrArg (fun r => r.2.submitted) hchanging).trans hgo⟩

end Act

end GraphMapper

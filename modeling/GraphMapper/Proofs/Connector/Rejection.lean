/-
A rejected call has no effect.

What is wrong with the arguments of a call is found out before anything is
submitted. Until then an operation only asks and decides (`Act.Still`), and may
reject. From its first submission on it rejects nothing any more: the graph and
the results know nothing of rejections, and what is built after the first
submission has been built before it. The one exception is a server that has
been told to answer with a rejection; it then hands out a failure that it has
held all along (`Act.RejectsOnly`).

So when a call is rejected the connector is as it was, and the sink has been
told of the failure at most (`Connector.Unmoved`).

# Two notions

A part of an operation either leaves the connector alone whatever it answers
(`Still`), or rejects nothing from where it stands on (`Accepts`). Most
operations are some parts of the first kind followed by some of the second, and
`RejectsOnly.bind` puts these together: what stands behind the first submission
has only to be looked at for rejections, and what stands before it only for
changes.

A destruction of all matches is the exception in form. It counts before it
drops, so it builds a traversal behind a submission; but the count has read the
same filter, and had it been rejected there would have been no count.

Main statement: `rejection_without_effect`.

Chain: `Failure.Rejection` and `Graph.Refusals` say what rejects nothing below
the connector; `Frame` has the calculus of conditions that every part keeps.
-/
import GraphMapper.Proofs.Connector.Destruction
import GraphMapper.Proofs.Connector.Outcomes
import GraphMapper.Proofs.Graph.Refusals

namespace GraphMapper

variable {α β : Type} {c c' c₀ : Connector} {e : Failure}

namespace Connector

/-- Among the failures that the server has been told to answer with, and has
answered with in the meantime, is this one. -/
def Told (e : Failure) (c c' : Connector) : Prop :=
  ∃ used, c.server.failures = used ++ c'.server.failures ∧ e ∈ used

/-- Nothing has happened but that operations have been observed to fail with
this failure. -/
def Unmoved (c : Connector) (e : Failure) (c' : Connector) : Prop :=
  ∃ notes, c' = { c with effects := c.effects ++ notes } ∧
    ∀ n ∈ notes, ∃ operation model,
    n = .observed operation false e.recordCode model

/-- A connector that is left as it was is unmoved. -/
theorem unmoved_self (c : Connector) (e : Failure) : Unmoved c e c :=
  ⟨[], by rw [List.append_nil], fun _ h => (nomatch h)⟩

/-- The sink is told of a failure. -/
theorem Unmoved.report (h : Unmoved c e c') (operation : String)
    (model : Option String) :
    Unmoved c e (c'.report
      (.observed operation false e.recordCode model)) := by
  obtain ⟨notes, rfl, hnotes⟩ := h
  have hnoted : Unmoved c e (note { c with effects := c.effects ++ notes }
      (.observed operation false e.recordCode model)) := by
    refine ⟨notes ++ [.observed operation false e.recordCode model], ?_,
      fun n hn => ?_⟩
    · simp [note]
    · rcases List.mem_append.mp hn with hn | hn
      · exact hnotes n hn
      · exact ⟨operation, model, List.mem_singleton.mp hn⟩
  unfold Connector.report tell
  split
  · exact hnoted
  · exact hnoted
  · exact ⟨notes, rfl, hnotes⟩

end Connector

open Connector

namespace Act

-- =========================================================== asking only

/-- The act leaves the connector as it is. -/
def Still (act : Act α) : Prop := ∀ c, (act c).2 = c

/-- What is given as it stands asks nothing. -/
theorem still_pure (a : α) : Still (pure a : Act α) := fun _ => rfl

/-- To ask is all that a question does. -/
private theorem still_ask (f : Connector → Checked α) :
    Still (ask f) := fun _ => rfl

/-- Neither does a decision about values touch the connector. -/
theorem still_check (r : Checked α) : Still (check r) := fun _ => rfl

/-- Questions one after the other are still no more than questions. -/
theorem Still.bind {a : Act α} {k : α → Act β} (ha : Still a)
    (hk : ∀ x, Still (k x)) :
    Still (a >>= k) := by
  intro c
  have hc := ha c
  rw [bind_apply]
  rcases hgo : a c with ⟨e | x, c'⟩
  · rw [hgo] at hc
    exact hc
  · rw [hgo] at hc
    exact (hk x c').trans hc

/-- The source of a change is read off the pending work, which stays there. -/
theorem still_source (o : Options) : Still (source o) := by
  unfold source
  split
  · exact still_pure _
  · refine (still_ask _).bind fun pending => ?_
    split <;> exact still_pure _

/-- A model is looked up, and the registry is left as it is. -/
theorem still_modelFor (model : Option String) : Still (modelFor model) := by
  unfold modelFor
  split
  · exact still_pure _
  · exact (still_ask _).bind fun _ => still_pure _

/-- Steps are built by asking for the model and for the source. -/
theorem still_build {source : Act (List Step)} (hs : Still source)
    (model : Option String) (operation : Model → Build Unit) :
    Still (build model source operation) :=
  hs.bind fun _ => (still_ask _).bind fun _ => still_check _

/-- So whatever follows a question that was answered starts where the question
did. -/
theorem Still.eq_ok {a : Act α} {x : α} (ha : Still a)
    (h : a c = (.ok x, c')) : c' = c := by
  rw [← ha c, h]

-- ============================================================= rejections

/-- The act, done with this connector, rejects only what the server has been
told to reject, unless `Q` holds of the failure and of the connector that is
left. The server is told nothing new. -/
def RejectsOnly (Q : Failure → Connector → Prop) (act : Act α)
    (c : Connector) : Prop :=
  ∃ used, c.server.failures = used ++ (act c).2.server.failures ∧
    ∀ e, (act c).1 = .error e → e.isRejection = true → e ∈ used ∨ Q e (act c).2

/-- The act rejects nothing but what the server has been told to. -/
abbrev Accepts (act : Act α) (c : Connector) : Prop :=
  RejectsOnly (fun _ _ => False) act c

variable {Q : Failure → Connector → Prop}

/-- What rejects nothing rejects only with what one likes. -/
private theorem Accepts.rejectsOnly {act : Act α} (h : Accepts act c) :
    RejectsOnly Q act c := by
  obtain ⟨used, hused, hfails⟩ := h
  exact ⟨used, hused, fun e he hrej =>
    .inl ((hfails e he hrej).resolve_right id)⟩

/-- Prepared failures are used up by submissions only. -/
private theorem accepts_of_same {act : Act α}
    (hsame : (act c).2.server.failures = c.server.failures)
    (h : NeverRejects (act c).1) : Accepts act c := by
  refine ⟨[], by rw [hsame, List.nil_append], fun e he hrej => ?_⟩
  rw [h e he] at hrej
  cases hrej

/-- What is given as it stands is no failure. -/
theorem accepts_pure (a : α) : Accepts (pure a) c :=
  accepts_of_same rfl (failsOnly_ok a)

/-- A decision that rejects nothing is accepted as it is. -/
private theorem accepts_check {r : Checked α} (h : NeverRejects r) :
    Accepts (check r) c :=
  accepts_of_same rfl h

/-- What only asks may reject. -/
private theorem Still.rejectsOnly {act : Act α} (h : Still act) :
    RejectsOnly (Unmoved c) act c := by
  refine ⟨[], by rw [h c, List.nil_append], fun e _ _ => .inr ?_⟩
  rw [h c]
  exact unmoved_self c e

/-- Each part may reject with what the whole may, the second on the connector
that the first one leaves. -/
theorem RejectsOnly.bind {a : Act α} {k : α → Act β} (ha : RejectsOnly Q a c)
    (hk : ∀ x c', a c = (.ok x, c') → RejectsOnly Q (k x) c') :
    RejectsOnly Q (a >>= k) c := by
  obtain ⟨used, hused, hfails⟩ := ha
  unfold RejectsOnly
  rw [bind_apply]
  rcases hgo : a c with ⟨e | x, c'⟩
  · rw [hgo] at hused hfails
    exact ⟨used, hused, fun f hf =>
      hfails f (congrArg Except.error (Except.error.inj hf))⟩
  · rw [hgo] at hused
    obtain ⟨later, hlater, hfails'⟩ := hk x c' hgo
    refine ⟨used ++ later, by rw [hused, hlater, List.append_assoc],
      fun f hf hrej => ?_⟩
    exact (hfails' f hf hrej).imp (List.mem_append_right used) id

/-- After something has only been asked, the connector is still the same. -/
theorem Still.andThen {a : Act α} {k : α → Act β} (ha : Still a)
    (hk : ∀ x, a c = (.ok x, c) → RejectsOnly (Unmoved c) (k x) c) :
    RejectsOnly (Unmoved c) (a >>= k) c := by
  refine ha.rejectsOnly.bind fun x c' hgo => ?_
  obtain rfl : c' = c := ha.eq_ok hgo
  exact hk x hgo

/-- Observing tells the sink of the failure. -/
theorem RejectsOnly.observed {act : Act α} (h : RejectsOnly (Unmoved c₀) act c)
    (operation : String) (model : Option String) :
    RejectsOnly (Unmoved c₀) (observed operation model act) c := by
  obtain ⟨used, hused, hfails⟩ := h
  refine ⟨used, by rw [observed_server, hused], fun e he hrej => ?_⟩
  rw [observed_fst] at he
  refine (hfails e he hrej).imp id fun hunmoved => ?_
  have hgo : Act.observed operation model act c
      = (.error e,
        (act c).2.report
          (.observed operation false e.recordCode (named model))) := by
    unfold Act.observed
    rcases hact : act c with ⟨f | a, c'⟩
    · rw [hact] at he
      rw [Except.error.inj he]
    · rw [hact] at he
      cases he
  rw [hgo]
  exact hunmoved.report operation _

/-- The sink is told of the outcome, and the outcome stays. -/
theorem Accepts.observed {act : Act α} (h : Accepts act c) (operation : String)
    (model : Option String) : Accepts (observed operation model act) c := by
  obtain ⟨used, hused, hfails⟩ := h
  refine ⟨used, by rw [observed_server, hused], fun e he hrej => ?_⟩
  rw [observed_fst] at he
  exact (hfails e he hrej).imp id False.elim

-- ============================================================ submissions

/-- The server rejects nothing unless it has been told to, and that is not so
here. -/
private theorem accepts_submitOnce (steps : List Step) (mode : Mode) :
    Accepts (submitOnce steps mode) c := by
  obtain ⟨used, hused, hfails⟩ := c.server.submit_rejects steps mode
  exact ⟨used, hused, fun e he hrej => .inl (hfails e he hrej)⟩

/-- Prepared failures are for submissions only. -/
def SameFailures (c c' : Connector) : Prop :=
  c'.server.failures = c.server.failures

/-- To have the same scripted failures is a frame condition, so it is shown
part by part. -/
private theorem frame_sameFailures : Frame SameFailures where
  refl _ := rfl
  trans h h' := h'.trans h
  note _ _ _ _ := rfl
  advance _ _ := rfl

/-- A failure that is passed on is that of the submission, unless it tells of a
delay or of a connection; and these are no rejections. -/
private theorem not_rejection_of_passedOn {f : Failure} (h : Host.PassedOn e f)
    (hrej : f.isRejection = true) : f = e := by
  rcases h with heq | ⟨s, rfl⟩
  · exact heq
  · cases hrej

/-- Every further submission is one like the first, on a connector with the
same script. -/
private theorem accepts_submitAgain (m : Model) (steps : List Step)
    (mode : Mode) (left : Nat) :
    Accepts (run (Connector.host.submitAgain m steps mode left)) c := by
  induction left using Nat.strongRecOn generalizing c with
  | _ left ih =>
      obtain ⟨used, hused, hfails⟩ := accepts_submitOnce (c := c) steps mode
      unfold submitOnce run at hused hfails
      unfold run
      rcases Connector.host.submitAgain_cases m steps mode left c with
        ⟨v, c', hfirst, hgo⟩ | ⟨e, c', hfirst, hgo⟩
      · rw [hfirst] at hused
        exact ⟨used, by
          rw [hgo, hused], fun f hf => by rw [hgo] at hf; cases hf⟩
      · rw [hfirst] at hused hfails
        have hready : ∀ reconnect, SameFailures c'
            (Connector.host.prepareRetry m e reconnect c').2 :=
              fun reconnect =>
          keeps_prepareRetry frame_sameFailures m e reconnect c'
        -- whatever is passed on in the end, if it is a rejection it is that of
        -- the submission
        have hlast : ∀ {f c''}, Host.PassedOn e f → SameFailures c' c'' →
            Connector.host.submitAgain m steps mode left c = (.error f, c'') →
              Accepts (run (Connector.host.submitAgain m steps mode left))
                c := by
          intro f c'' hpassed hsame hgo
          unfold run
          refine ⟨used, by rw [hgo, hused, ← hsame], fun f' hf' hrej => ?_⟩
          rw [hgo] at hf'
          obtain rfl := Except.error.inj hf'
          obtain rfl := not_rejection_of_passedOn hpassed hrej
          exact hfails _ rfl hrej
        rcases hgo with ⟨f, hpassed, hgo⟩
          | ⟨reconnect, ⟨f, hpassed, hgo⟩ | ⟨less, rfl, hgo⟩⟩
        · exact hlast hpassed rfl hgo
        · exact hlast hpassed (hready reconnect) hgo
        · obtain ⟨later, hlater, hfails'⟩ := ih less (Nat.lt_succ_self less)
            (c := (Connector.host.prepareRetry m e reconnect c').2)
          unfold run at hlater hfails'
          refine ⟨used ++ later, ?_, fun f hf hrej => ?_⟩
          · rw [hgo, List.append_assoc, ← hlater, hready reconnect, hused]
          · rw [hgo] at hf
            exact (hfails' f hf hrej).imp (List.mem_append_right used) id

/-- So all submissions of an execution together reject nothing. -/
private theorem accepts_submitWithRetry (found : Option Model)
    (steps : List Step) (mode : Mode) :
    Accepts (run (Connector.host.submitWithRetry found steps mode)) c := by
  cases found with
  | none => exact accepts_submitOnce steps mode
  | some m => exact accepts_submitAgain m steps mode m.retry.attempts

-- ============================================================== executions

/-- What an answer is brought into is no matter of rules. -/
private theorem neverRejects_finish (o : Options) (found : Option Model)
    (mode : Mode) (raw : Value) :
    NeverRejects (o.finish found mode raw) := by
  unfold Options.finish
  split
  · exact failsOnly_ok _
  · split
    · exact Result.neverRejects_present _ _
    · exact failsOnly_ok _

/-- The one thing about an execution that may be rejected is its model. -/
private theorem rejectsOnly_execute {model : Option String} {o : Options}
    (hmodel : RejectsOnly Q (modelFor model) c) (steps : List Step)
    (mode : Mode) :
    RejectsOnly Q (execute model steps o mode) c := by
  cases ho : o.joined with
  | none =>
      rw [execute_alone ho]
      refine hmodel.bind fun found c' _ => Accepts.rejectsOnly ?_
      exact (accepts_submitWithRetry found steps mode).bind fun raw c'' _ =>
        accepts_check (neverRejects_finish o found mode raw)
  | some tx =>
      have hstore : NeverRejects (c.transactions.store tx (some steps)) :=
        Transactions.neverRejects_store
      refine Accepts.rejectsOnly (accepts_of_same ?_ ?_)
      · rw [execute_joined ho]
        split <;> rfl
      · rw [execute_joined ho]
        rcases hgo : c.transactions.store tx (some steps) with e | stored
        · exact failsOnly_error (hstore e hgo)
        · exact failsOnly_ok _

-- ================================================================ changes

variable {model : Option String} {m : Model} {o : Options}

/-- A change is rejected while its steps are built, or not at all. -/
private theorem rejectsOnly_mutate (model : Option String)
    (operation : Model → Build Unit) (o : Options) (mode : Mode) :
    RejectsOnly (Unmoved c) (mutate model operation o mode) c :=
  (still_build (still_source o) model operation).andThen fun steps _ =>
    rejectsOnly_execute (still_modelFor model).rejectsOnly steps mode

/-- An operation that changes and then finishes its answer: the finish is
behind the submission. -/
private theorem rejectsOnly_changing {finish : Options → Value → Act Value}
    (hfinish : ∀ o v c', Accepts (finish o v) c') (operation : String)
    (model : Option String) (builder : Model → Build Unit) (mode : Mode)
    (options : Value) :
    RejectsOnly (Unmoved c)
      (changing operation model builder mode options finish) c := by
  refine (still_check _).andThen fun o _ =>
    RejectsOnly.observed ?_ operation model
  exact (rejectsOnly_mutate model builder o mode).bind fun v c' _ =>
    (hfinish o v c').rejectsOnly

/-- A creation is checked as a whole before its traversal is submitted. -/
private theorem rejectsOnly_create (model : Option String)
    (record options : Value) :
    RejectsOnly (Unmoved c) (create model record options) c := by
  rw [create_eq]
  refine rejectsOnly_changing (fun _ v c' => ?_) _ _ _ _ _
  split <;> exact accepts_pure _

/-- A replacement asks for an id first, which is a rejection of its own. -/
private theorem rejectsOnly_replaceById (model : Option String)
    (id record options : Value) :
    RejectsOnly (Unmoved c) (replaceById model id record options) c := by
  rw [replaceById_eq]
  exact (still_check _).andThen fun _ _ =>
    rejectsOnly_changing (fun _ _ _ => accepts_pure _) _ _ _ _ _

/-- An update reads its options, then its filter, then its record. -/
private theorem rejectsOnly_updateAll (model : Option String)
    (filter record options : Value) :
    RejectsOnly (Unmoved c) (updateAll model filter record options) c := by
  rw [updateAll_eq]
  refine rejectsOnly_changing (fun o v c' => ?_) _ _ _ _ _
  split
  · exact accepts_pure _
  · exact (accepts_check (neverRejects_countOf v)).bind fun _ _ _ =>
      accepts_pure _

/-- To save is one of the changes above, told by whether the record has an
id. -/
private theorem rejectsOnly_save (model : Option String)
    (record options : Value) :
    RejectsOnly (Unmoved c) (save model record options) c :=
  (still_ask _).andThen fun _ _ => (still_check _).andThen fun _ _ =>
    rejectsOnly_replaceById model _ record options

-- ================================================================== reads

/-- A read is built and executed, and something is made of its result. -/
private theorem rejectsOnly_read {k : Value → Act β}
    (hk : ∀ v c', Accepts (k v) c')
    (model : Option String) (operation : Model → Build Unit) (o : Options)
    (mode : Mode) :
    RejectsOnly (Unmoved c) (do
      let steps ← build model (pure []) operation
      k (← execute model steps o mode)) c := by
  refine (still_build (still_pure []) model operation).andThen
    fun steps _ => ?_
  exact (rejectsOnly_execute (still_modelFor model).rejectsOnly steps
      mode).bind fun v c' _ =>
    (hk v c').rejectsOnly

/-- A read of records builds its traversal from the filter before it submits
it. -/
theorem rejectsOnly_all (model : Option String) (filter options : Value) :
    RejectsOnly (Unmoved c) (all model filter options) c := by
  refine (still_check _).andThen fun o _ => RejectsOnly.observed ?_ "all" model
  refine (still_ask _).andThen fun m _ => ?_
  refine rejectsOnly_read (fun rows c' => ?_) model _ _ _
  split
  · have hfields : ∀ query : Value,
        NeverRejects (query.entries >>= Projection.fields) :=
      fun query =>
        query.neverRejects_entries.bind Projection.neverRejects_fields
    refine (accepts_check (hfields _)).bind fun fields _ _ => ?_
    refine (accepts_check (neverRejects_rowsOf rows)).bind fun items _ _ => ?_
    refine (accepts_check
      (failsOnly_mapM (neverRejects_toRecord m fields) items)).bind ?_
    exact fun _ _ _ => accepts_pure _
  · exact accepts_pure _

/-- The first record is read like all records. -/
private theorem rejectsOnly_findOne (model : Option String) (filter : Value) :
    RejectsOnly (Unmoved c) (findOne model filter) c :=
  (still_check _).andThen fun query _ =>
    (rejectsOnly_all model query .null).bind fun _ _ _ =>
      (accepts_pure _).rejectsOnly

/-- So is a record by its id. -/
private theorem rejectsOnly_findById (model : Option String)
    (id filter : Value) :
    RejectsOnly (Unmoved c) (findById model id filter) c :=
  (still_ask _).andThen fun _ _ => (still_check _).andThen fun _ _ =>
    (still_check _).andThen fun query _ =>
      (rejectsOnly_all model query .null).bind fun _ _ _ =>
        (accepts_pure _).rejectsOnly

/-- Whether there is a record is told by its count. -/
private theorem rejectsOnly_presence (model : Option String) (id : Value) :
    RejectsOnly (Unmoved c) (presence model id) c :=
  (rejectsOnly_read
      (fun v _ => (accepts_check (neverRejects_countOf v)).bind fun _ _ _ =>
    accepts_pure _) model _ .standard .next).observed "exists" model

/-- A count is a read with another last step. -/
private theorem rejectsOnly_count (model : Option String) (filter : Value) :
    RejectsOnly (Unmoved c) (count model filter) c :=
  (rejectsOnly_read (fun v _ => accepts_check (neverRejects_countOf v)) model _
    .standard .next).observed "count" model

-- ============================================================ destructions

/-- A traversal that is built is that of a model. -/
private theorem build_eq_ok {source : Act (List Step)} (hs : Still source)
    {operation : Model → Build Unit} {steps : List Step}
    (h : build model source operation c = (.ok steps, c')) :
    ∃ m start, c.registry.get model = .ok m ∧
      Build.traversalFrom start (operation m) = .ok steps := by
  unfold build at h
  rcases hsource : source c with ⟨e | start, c₁⟩
  · rw [bind_apply_error hsource] at h
    cases h
  · obtain rfl : c₁ = c := hs.eq_ok hsource
    rw [bind_apply_ok hsource] at h
    rcases hmodel : c₁.registry.get model with e | m
    · rw [bind_apply_error
        (show ask _ c₁ = (.error e, c₁) by rw [ask, hmodel])] at h
      cases h
    · rw [bind_apply_ok (show ask _ c₁ = (.ok m, c₁) by rw [ask, hmodel])] at h
      exact ⟨m, start, rfl, (Prod.mk.inj h).1⟩

/-- Elements can be counted only if they can be selected. -/
private theorem selected_of_count {filter : Value} {n : Int}
    (h : count model filter c = (.ok n, c')) :
    ∃ m selected, c.registry.get model = .ok m ∧
      Filter.select m filter = .ok selected := by
  have hcount := congrArg Prod.fst h
  unfold count at hcount
  rw [observed_fst] at hcount
  rcases hbuild : build model (pure []) (Query.count · filter) c with
    ⟨e | steps, c₁⟩
  · rw [bind_apply_error hbuild] at hcount
    cases hcount
  · obtain ⟨m, start, hmodel, hsteps⟩ := build_eq_ok (still_pure []) hbuild
    unfold Query.count Query.select at hsteps
    rw [bind_assoc] at hsteps
    obtain ⟨selected, hselect, -⟩ := Build.traversalFrom_check hsteps
    exact ⟨m, selected, hmodel, hselect⟩

/-- When the model is there and its steps can be built, nothing else about a
change can be rejected. -/
private theorem accepts_mutate {operation : Model → Build Unit}
    (hmodel : c.registry.get model = .ok m)
    (hsteps : ∀ start, NeverRejects (Build.traversalFrom start (operation m)))
    (o : Options) (mode : Mode) :
    Accepts (mutate model operation o mode) c := by
  -- source, model and builder are each checked in turn, none of which the
  -- server sees
  have hsource : Accepts (source o) c := by
    refine accepts_of_same (by rw [still_source]) ?_
    cases ho : o.joined with
    | none =>
        unfold source
        rw [ho]
        exact failsOnly_ok _
    | some tx =>
        have hpending : NeverRejects (c.transactions.pending tx) :=
          Transactions.neverRejects_pending
        rw [source_joined ho]
        rcases hgo : c.transactions.pending tx with e | p
        · exact failsOnly_error (hpending e hgo)
        · cases p <;> exact failsOnly_ok _
  have hask : Accepts (ask fun c => c.registry.get model) c := by
    refine accepts_of_same rfl ?_
    rw [ask, hmodel]
    exact failsOnly_ok m
  have hfor : Accepts (modelFor model) c := by
    unfold modelFor
    split
    · exact accepts_pure _
    · next name hname =>
      obtain rfl : model = some name := (Option.filter_eq_some_iff.mp hname).1
      exact hask.bind fun _ _ _ => accepts_pure _
  have hbuild : Accepts (build model (source o) operation) c := by
    refine hsource.bind fun start c₁ hstart => ?_
    obtain rfl := (still_source o).eq_ok hstart
    refine hask.bind fun m' c₂ hm' => ?_
    obtain rfl : m = m' := by
      rw [ask, hmodel] at hm'
      exact Except.ok.inj (Prod.mk.inj hm').1
    exact accepts_check (hsteps start)
  refine hbuild.bind fun steps c₁ hgo => ?_
  obtain rfl := (still_build (still_source o) model operation).eq_ok hgo
  exact rejectsOnly_execute hfor steps mode

/-- What has been counted can be selected, so the destruction of it is not
rejected any more. -/
private theorem rejectsOnly_destroyAll (model : Option String)
    (filter options : Value) :
    RejectsOnly (Unmoved c) (destroyAll model filter options) c := by
  rw [destroyAll_eq]
  refine (still_check _).andThen fun o _ => ?_
  refine (rejectsOnly_count model filter).bind fun matched c₁ hcount =>
    Accepts.rejectsOnly ?_
  obtain ⟨m, selected, hmodel, hselect⟩ := selected_of_count hcount
  have hregistry : c₁.registry = c.registry := by
    have hsettled := (settled_count model filter c).1
    rw [hcount] at hsettled
    exact hsettled
  have hsteps : ∀ start,
      NeverRejects (Build.traversalFrom start (Query.drop m filter)) := by
    intro start
    have hdrop : Build.traversalFrom start (Query.drop m filter)
        = .ok (start ++ selected ++ [.call .drop []]) := by
      unfold Query.drop Query.select Build.traversalFrom
      simp [Build.runFrom_bind, hselect]
    rw [hdrop]
    exact failsOnly_ok _
  split
  · exact accepts_pure _
  · refine Accepts.observed ?_ "destroy_all" model
    exact (accepts_mutate (hregistry ▸ hmodel) hsteps o .iterate).bind
        fun _ _ _ =>
      accepts_pure _

/-- A destruction by id counts first, and the count has been built from the
same filter. -/
private theorem rejectsOnly_destroyById (model : Option String)
    (id options : Value) :
    RejectsOnly (Unmoved c) (destroyById model id options) c :=
  (still_ask _).andThen fun m _ => (still_check _).andThen fun _ _ =>
    rejectsOnly_destroyAll model (Query.byId m id) options

-- ================================================================== others

/-- A traversal of the caller's own is rejected for its options or its mode
only. -/
private theorem rejectsOnly_executeGiven (model : Option String)
    (steps : List Step) (options mode : Value) :
    RejectsOnly (Unmoved c) (executeGiven model steps options mode) c :=
  (still_check _).andThen fun mode _ => (still_check _).andThen fun _ _ =>
    rejectsOnly_execute (still_modelFor model).rejectsOnly steps mode

/-- A definition is checked before its model is registered. -/
private theorem rejectsOnly_register (definition : Value) :
    RejectsOnly (Unmoved c) (register definition) c := by
  rcases hmodel : c.registry.registerDefinition definition with
    e | ⟨registry, m⟩
  · have hgo : register definition c = (.error e, c) := by
      unfold register run
      simp only [hmodel]
    refine ⟨[], by rw [hgo]; rfl, fun f _ _ => .inr ?_⟩
    rw [hgo]
    exact unmoved_self c f
  · have hgo : register definition c = (.ok m.label, { c with registry }) := by
      unfold register run
      simp only [hmodel]
    refine Accepts.rejectsOnly (accepts_of_same ?_ ?_)
    · rw [hgo]
    · rw [hgo]
      exact failsOnly_ok _

/-- No timeout is against a rule: one that is no number is a slip. -/
private theorem accepts_begin (timeout : Value) :
    Accepts (begin timeout) c := by
  refine accepts_of_same rfl ?_
  show NeverRejects ((c.transactions.begin c.clock timeout).1.map Value.text)
  exact (Transactions.neverRejects_begin c.clock timeout).map _

/-- A commit finds a transaction or not, and submits what is pending. -/
private theorem accepts_commit (tx : String) : Accepts (commit tx) c := by
  refine Accepts.observed ?_ "commit" none
  have htake : Accepts (takePending tx) c := by
    have hcommit : NeverRejects (c.transactions.commit tx) :=
      Transactions.neverRejects_commit
    unfold takePending run
    refine accepts_of_same ?_ ?_
    · split <;> rfl
    · split
      · exact failsOnly_ok _
      · next e hgo => exact failsOnly_error (hcommit e hgo)
  refine htake.bind fun work c₁ _ => ?_
  cases work with
  | none => exact accepts_pure _
  | some steps =>
      exact (accepts_submitOnce steps .iterate).bind fun _ _ _ =>
        accepts_pure _

/-- What cannot fail rejects nothing. -/
theorem accepts_change {f : Connector → Connector} {v : Value}
    (hf : (f c).server.failures = c.server.failures) :
    Accepts (do
      change f
      pure v) c := accepts_of_same hf (failsOnly_ok v)

/-- Any call but that of a context, which always connects and closes, and but
the one by which the server is told to fail. -/
private theorem rejectsOnly_act {call : Call}
    (hcontext : ∀ model, call ≠ .context model)
    (htelling : ∀ failures, call ≠ .failNext failures) :
    RejectsOnly (Unmoved c) call.act c := by
  -- one line per operation: the fact about its own action
  cases call with
  | create model record options =>
      exact rejectsOnly_create model record options
  | save model record options => exact rejectsOnly_save model record options
  | all model filter options => exact rejectsOnly_all model filter options
  | findOne model filter => exact rejectsOnly_findOne model filter
  | findById model id filter => exact rejectsOnly_findById model id filter
  | presence model id => exact rejectsOnly_presence model id
  | count model filter =>
      exact (rejectsOnly_count model filter).bind fun _ _ _ =>
        (accepts_pure _).rejectsOnly
  | destroyAll model filter options =>
      exact rejectsOnly_destroyAll model filter options
  | destroyById model id options =>
      exact rejectsOnly_destroyById model id options
  | replaceById model id record options =>
      exact rejectsOnly_replaceById model id record options
  | updateAll model filter record options =>
      exact rejectsOnly_updateAll model filter record options
  | begin timeout => exact (accepts_begin timeout).rejectsOnly
  | commit tx => exact (accepts_commit tx).rejectsOnly
  | rollback tx => exact (accepts_change rfl).rejectsOnly
  | connect =>
      refine (accepts_change ?_).rejectsOnly
      split <;> rfl
  | close => exact (accepts_change rfl).rejectsOnly
  | context model => exact absurd rfl (hcontext model)
  | pending tx =>
      refine (still_ask _).andThen fun pending _ => Accepts.rejectsOnly ?_
      split <;> exact accepts_pure _
  | hasModel model => exact (still_ask _).rejectsOnly
  | register definition => exact rejectsOnly_register definition
  | execute steps options mode =>
      exact (rejectsOnly_executeGiven none steps options mode).observed
        "execute" none
  | engine model steps options mode =>
      exact rejectsOnly_executeGiven model steps options mode
  | submitOnce steps mode =>
      exact (still_check _).andThen fun mode _ =>
        (accepts_submitOnce steps mode).rejectsOnly
  | advance milliseconds => exact (accepts_change rfl).rejectsOnly
  | failNext failures => exact absurd rfl (htelling failures)
  | reply values => exact (accepts_change rfl).rejectsOnly
  | failReconnect failure => exact (accepts_change rfl).rejectsOnly
  | look => exact (still_pure _).rejectsOnly

end Act

-- ============================================================ whole calls

namespace Connector

/-- To look for expired transactions twice in a row finds no more of them. -/
private theorem settle_settle (c : Connector) :
    c.settle.settle = c.settle := by
  unfold settle
  rw [Transactions.expire_expire]

/-- Every call ends with such a look, so after a run nothing is due. -/
theorem settle_runCalls (h : c.settle = c) (calls : List Call) :
    (c.runCalls calls).settle = c.runCalls calls := by
  induction calls generalizing c with
  | nil => exact h
  | cons call calls ih => exact ih (settle_settle _)

/-- A connector that has just been made has no transaction that could be
due. -/
theorem settle_ofSettings {settings : Settings} {definitions : List Value}
    {graph : Graph} {sink : Sink} {openable : Bool}
    (hmade : ofSettings settings definitions graph sink openable = .ok c) :
    c.settle = c := by
  unfold ofSettings at hmade
  obtain ⟨registry, -, hmade⟩ := bind_eq_ok hmade
  obtain ⟨transactions, htransactions, hmade⟩ := bind_eq_ok hmade
  have hnone : transactions.openIds = [] := by
    unfold Transactions.ofTimeout at htransactions
    split at htransactions
    · cases htransactions
    · cases htransactions
    · obtain ⟨n, -, hn⟩ := bind_eq_ok htransactions
      rw [← Except.ok.inj hn]
  rw [← Except.ok.inj hmade]
  unfold settle Transactions.expire
  rw [hnone]
  rfl

/-- A call that is rejected has had no effect, in whatever state the connector
is: nothing has been submitted or waited for, and server, transactions, models
and clock are as they were. What is not its own are the rejections that the
server has been told to answer with. -/
theorem rejection_without_effect {settings : Settings}
    {definitions : List Value} {graph : Graph} {sink : Sink} {openable : Bool}
    (hmade : ofSettings settings definitions graph sink openable = .ok c₀)
    (before : List Call) {call : Call} (hcall : ∀ model, call ≠ .context model)
    (hfails : ((c₀.runCalls before).perform call).1 = .error e)
    (he : e.isRejection = true)
    (hown : ¬Told e (c₀.runCalls before)
      ((c₀.runCalls before).perform call).2) :
    Unmoved (c₀.runCalls before) e ((c₀.runCalls before).perform call).2 := by
  have hsettled := settle_runCalls (settle_ofSettings hmade) before
  generalize c₀.runCalls before = c at hfails hown hsettled ⊢
  by_cases htelling : ∃ failures, call = .failNext failures
  · obtain ⟨failures, rfl⟩ := htelling
    cases hfails
  · obtain ⟨used, hused, hrejects⟩ :=
      Act.rejectsOnly_act (c := c) hcall fun failures h =>
        htelling ⟨failures, h⟩
    rcases hrejects e hfails he with htold | ⟨notes, hgo, hnotes⟩
    · exact absurd ⟨used, hused, htold⟩ hown
    · have hsame : c.transactions.expire c.clock = c.transactions :=
        congrArg Connector.transactions hsettled
      refine ⟨notes, ?_, hnotes⟩
      show (call.act c).2.settle = _
      rw [hgo]
      unfold settle
      simp only [hsame]

/-- A server without a script has been told nothing. -/
private theorem not_told_of_none (h : c.server.failures = []) :
    ¬Told e c c' := by
  rintro ⟨used, hused, he⟩
  rw [h] at hused
  rw [(List.append_eq_nil_iff.mp hused.symm).1] at he
  cases he

/-- A filter with an operator that has no traversal. -/
def nearby : Value := .map [(.text "name", .map [(.text "near", .int 1)])]

/-- A destruction of what is near is rejected, and the pending work of its
transaction stays. -/
theorem rejection_of_nearby :
    ∃ c₀ e, ofSettings sampleSettings [sampleDefinition] .empty .recording true
      = .ok c₀ ∧
      let c := c₀.runCalls sampleCalls
      let rejected :=
        c.perform (.destroyAll (some "Person") nearby (under "tx-1"))
      c.transactions.isOpen "tx-1" = true ∧ rejected.1 = .error e ∧
        e.isRejection = true ∧ Unmoved c e rejected.2 := by
  have hrun : (match ofSettings sampleSettings [sampleDefinition] .empty
      .recording true with
      | .ok c₀ =>
        let c := c₀.runCalls sampleCalls
        c.transactions.isOpen "tx-1" && c.server.failures.isEmpty &&
          rejects (c.perform
            (.destroyAll (some "Person") nearby (under "tx-1"))).1
      | .error _ => false) = true := by decide +kernel
  cases h₀ : ofSettings sampleSettings [sampleDefinition] .empty
      .recording true with
  | error e => rw [h₀] at hrun; cases hrun
  | ok c₀ =>
      rw [h₀] at hrun
      simp only [Bool.and_eq_true, List.isEmpty_iff] at hrun
      obtain ⟨⟨hopen, hnone⟩, hrejected⟩ := hrun
      obtain ⟨e, hfails, he⟩ := exists_of_rejects hrejected
      exact ⟨c₀, e, rfl, hopen, hfails, he,
        rejection_without_effect h₀ sampleCalls (fun _ h => nomatch h) hfails
          he
          (not_told_of_none hnone)⟩

end Connector

end GraphMapper

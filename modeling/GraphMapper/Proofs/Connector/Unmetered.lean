/-
Metrics sway nothing.

A connector tells its sink about operations that are over and about
repetitions, and nothing that it does depends on what comes of that. So the
sink can be taken away, with all that it has been told: what is done to a
connector commutes with that (`Act.Unswayed`). This is shown part by part, and
each operation is put together from the parts as it is defined. From one call
it goes on to a run by induction on the calls.

Two connectors over the same graph that differ in their sinks are the same
without these. What there is to see of their runs, metrics apart (`Sight`), is
therefore the same at every call.

# Why each operation is gone through

The sink is told in two places, behind an operation and behind a submission
that failed, and both drop what the sink raises. So the whole of the argument
about the sink is `Unswayed.observed` and the case of a counted repetition; all
other lemmas of the module say that a part does not look at what is taken away.
They are one for each operation, as the definitions are, and none has an idea
of its own.

Main statement: `metrics_sway_nothing`.

Chain: `Execution.Retry` says what a simulation of hosts is; `Observing` tells
what the sink is told, where this module tells that it does not matter.
-/
import GraphMapper.Proofs.Connector.Frame

namespace GraphMapper

-- ================================================================== hosts

namespace Host

variable {σ τ : Type} {host : Host σ} {other : Host τ} {f : σ → τ}

/-- What is done to the one host and then mapped is what is done to the
other. -/
structure Simulates (host : Host σ) (other : Host τ) (f : σ → τ) : Prop where
  submit : ∀ steps mode s, other.submit steps mode (f s)
      = (host.submit steps mode s).map id f
  reconnect : ∀ s, other.reconnect (f s) = (host.reconnect s).map id f
  countRetry : ∀ label s, other.countRetry label (f s)
      = f (host.countRetry label s)
  sleep : ∀ seconds s, other.sleep seconds (f s) = f (host.sleep seconds s)

/-- What is done between two submissions is the same under the simulation,
since each of its parts is. -/
theorem Simulates.prepareRetry (h : Simulates host other f) (m : Model)
    (e : Failure) (reconnect : Bool) (s : σ) :
    other.prepareRetry m e reconnect (f s)
      = (host.prepareRetry m e reconnect s).map id f := by
  have hconnect : (if reconnect then other.reconnect (f s) else (.ok (), f s))
      = (if reconnect then host.reconnect s else (.ok (), s)).map id f := by
    cases reconnect with
    | false => rfl
    | true => exact h.reconnect s
  unfold Host.prepareRetry
  rw [hconnect]
  rcases (if reconnect then host.reconnect s else (.ok (), s)) with ⟨_ | _, s'⟩
  · rfl
  · simp only [Prod.map_apply, id_eq, h.countRetry]
    cases waitSeconds m with
    | error slip => rfl
    | ok seconds => exact congrArg (Except.ok (), ·) (h.sleep seconds _)

/-- Each submission has the same answer, so it is repeated just as often. -/
theorem Simulates.submitAgain (h : Simulates host other f) (m : Model)
    (steps : List Step) (mode : Mode) (left : Nat) (s : σ) :
    other.submitAgain m steps mode left (f s)
      = (host.submitAgain m steps mode left s).map id f := by
  induction left generalizing s with
  | zero =>
      unfold Host.submitAgain
      rw [h.submit]
      rcases host.submit steps mode s with ⟨e | v, s'⟩
      · simp only [Prod.map_apply, id_eq]
        cases RetryDecision.ofFailure e (some m) <;> rfl
      · rfl
  | succ left ih =>
      unfold Host.submitAgain
      rw [h.submit]
      rcases host.submit steps mode s with ⟨e | v, s'⟩
      · simp only [Prod.map_apply, id_eq]
        cases RetryDecision.ofFailure e (some m) with
        | error _ => rfl
        | ok decision =>
            simp only [h.prepareRetry]
            cases decision.retryable with
            | false => rfl
            | true =>
                rcases host.prepareRetry m e decision.reconnect s' with
                  ⟨_ | _, s''⟩
                · rfl
                · exact ih s''
      · rfl

/-- So is everything that submits again, by induction on the submissions that
are left. -/
theorem Simulates.submitWithRetry (h : Simulates host other f)
    (model : Option Model) (steps : List Step) (mode : Mode) (s : σ) :
    other.submitWithRetry model steps mode (f s)
      = (host.submitWithRetry model steps mode s).map id f := by
  cases model with
  | none => exact h.submit steps mode s
  | some m => exact h.submitAgain m steps mode m.retry.attempts s

end Host

-- ================================================================== sights

/-- An observation of an operation, or a count of a repetition. -/
def Effect.isMetric : Effect → Bool
  | .observed .. | .counted _ => true
  | _ => false

/-- What there is to see of a connector after a call when metrics are left
out. -/
structure Sight where
  outcome : Checked Value
  /-- All submissions, waits and connections so far, the latest last. -/
  effects : List Effect
  registry : Registry
  transactions : Transactions (List Step)
  server : Server
  clock : Int

namespace Connector

/-- The connector without a sink, and without what one has been told. -/
def unmetered (c : Connector) : Connector :=
  { c with sink := .absent, effects := c.effects.filter fun e => !e.isMetric }

/-- What there is to see of a call, apart from metrics. -/
def sight (outcome : Checked Value) (c : Connector) : Sight where
  outcome := outcome
  effects := c.effects.filter fun e => !e.isMetric
  registry := c.registry
  transactions := c.transactions
  server := c.server
  clock := c.clock

/-- What there is to see after each of some calls. -/
def sights (c : Connector) : List Call → List Sight
  | [] => []
  | call :: calls =>
      sight (c.perform call).1 (c.perform call).2
        :: sights (c.perform call).2 calls

/-- The models are no matter of metrics. -/
@[simp] theorem unmetered_registry (c : Connector) :
    c.unmetered.registry = c.registry := rfl

/-- Neither are the transactions. -/
@[simp] theorem unmetered_transactions (c : Connector) :
    c.unmetered.transactions = c.transactions := rfl

-- ================================================================== notes

/-- An effect that is no metric is seen in either connector. -/
private theorem unmetered_note {e : Effect} (he : e.isMetric = false)
    (c : Connector) : (c.note e).unmetered = c.unmetered.note e := by
  simp [unmetered, note, List.filter_append, he]

/-- No metric is left over. -/
private theorem unmetered_note_metric {e : Effect} (he : e.isMetric = true)
    (c : Connector) :
    (c.note e).unmetered = c.unmetered := by
  simp [unmetered, note, List.filter_append, he]

/-- Whatever the sink does, and whether there is one, it leaves no trace. -/
private theorem unmetered_report {e : Effect} (he : e.isMetric = true)
    (c : Connector) :
    c.unmetered.report e = (c.report e).unmetered := by
  have habsent : c.unmetered.report e = c.unmetered := rfl
  rw [habsent]
  unfold report tell
  cases c.sink with
  | recording => exact (unmetered_note_metric he c).symm
  | failing => exact (unmetered_note_metric he c).symm
  | absent => rfl

/-- A submission of the connector asks nothing of the sink. -/
private theorem host_unmetered : host.Simulates host unmetered where
  submit steps mode c := by
    have hnote := unmetered_note (e := .submitted mode steps) rfl c
    show ((c.server.submit steps mode).1,
      { c.unmetered.note (.submitted mode steps) with
        server := (c.server.submit steps mode).2 }) = _
    rw [← hnote]
    rfl
  reconnect c := congrArg (c.server.reconnect, ·)
    (unmetered_note (e := .reconnected) rfl c).symm
  countRetry label c := unmetered_report rfl c
  sleep seconds c := by
    have hnote := unmetered_note (e := .slept seconds) rfl c
    show (c.unmetered.note (.slept seconds)).advance _ = _
    rw [← hnote]
    rfl

/-- What is seen has no metrics in it, so taking them away changes nothing. -/
private theorem sight_unmetered (outcome : Checked Value) (c : Connector) :
    sight outcome c.unmetered = sight outcome c := by
  simp [sight, unmetered, List.filter_filter]

end Connector

open Connector

namespace Act

variable {α β : Type}

-- ================================================================== parts

/-- Without a sink the act has the same outcome, and leaves what it leaves
otherwise without one. -/
def Unswayed (act : Act α) : Prop :=
  ∀ c : Connector, act c.unmetered = ((act c).1, (act c).2.unmetered)

/-- What is given as it stands does not ask the sink. -/
private theorem unswayed_pure (a : α) :
    Unswayed (pure a : Act α) := fun _ => rfl

/-- A decision about values asks no sink either. -/
private theorem unswayed_check (r : Checked α) :
    Unswayed (check r) := fun _ => rfl

/-- A question is answered the same if it is about nothing that has been taken
away. -/
private theorem unswayed_ask {f : Connector → Checked α}
    (h : ∀ c : Connector, f c.unmetered = f c) :
    Unswayed (ask f) := fun c => congrArg (·, c.unmetered) (h c)

/-- Models do not belong to the sink. -/
private theorem unswayed_model (model : Option String) :
    Unswayed (ask fun c => c.registry.get model) :=
  unswayed_ask fun _ => rfl

/-- A change that is not about the sink. -/
private theorem unswayed_change {f : Connector → Connector}
    (h : ∀ c : Connector, f c.unmetered = (f c).unmetered) (a : α) :
    Unswayed (do change f; pure a) := fun c => congrArg (Except.ok a, ·) (h c)

/-- Parts that commute with taking metrics away do so one after the other. -/
theorem Unswayed.bind {a : Act α} {k : α → Act β} (ha : Unswayed a)
    (hk : ∀ x, Unswayed (k x)) :
    Unswayed (a >>= k) := by
  intro c
  rw [bind_apply, bind_apply, ha c]
  rcases a c with ⟨e | x, c'⟩
  · rfl
  · exact hk x c'

/-- The report of an outcome goes to the sink, and to nothing else. -/
theorem Unswayed.observed {act : Act α} (h : Unswayed act) (operation : String)
    (model : Option String) : Unswayed (observed operation model act) := by
  intro c
  unfold Act.observed
  rw [h c]
  rcases act c with ⟨e | a, c'⟩
  · exact congrArg (Except.error e, ·) (unmetered_report rfl c')
  · exact congrArg (Except.ok a, ·) (unmetered_report rfl c')

-- ============================================================ submissions

/-- The server has no sink. -/
private theorem unswayed_submitOnce (steps : List Step) (mode : Mode) :
    Unswayed (submitOnce steps mode) :=
      fun c => host_unmetered.submit steps mode c

/-- A repetition is counted by the sink, and made whatever becomes of the
count. -/
private theorem unswayed_submitWithRetry (model : Option Model)
    (steps : List Step) (mode : Mode) :
    Unswayed (run (Connector.host.submitWithRetry model steps mode)) :=
  fun c => host_unmetered.submitWithRetry model steps mode c

/-- Models are looked up in a registry that stays. -/
private theorem unswayed_modelFor (model : Option String) :
    Unswayed (modelFor model) := by
  unfold modelFor
  split
  · exact unswayed_pure _
  · exact (unswayed_model _).bind fun _ => unswayed_pure _

/-- A source is read off the pending work, which stays. -/
private theorem unswayed_source (o : Options) : Unswayed (source o) := by
  unfold source
  split
  · exact unswayed_pure _
  · refine (unswayed_ask fun _ => rfl).bind fun pending => ?_
    split
    · exact unswayed_pure _
    · exact unswayed_pure _

/-- So steps are built alike. -/
private theorem unswayed_build {source : Act (List Step)} (h : Unswayed source)
    (model : Option String) (operation : Model → Build Unit) :
    Unswayed (build model source operation) :=
  h.bind fun _ => (unswayed_model model).bind fun _ => unswayed_check _

/-- Work is put into a transaction that either connector has. -/
private theorem unswayed_store (tx : String) (steps : List Step) :
    Unswayed (store tx steps) := by
  intro c
  simp only [store, run, unmetered_transactions]
  cases c.transactions.store tx (some steps) <;> rfl

/-- An execution submits, or stores: both are unswayed. -/
private theorem unswayed_execute (model : Option String) (steps : List Step)
    (o : Options) (mode : Mode) :
    Unswayed (execute model steps o mode) := by
  unfold execute
  split
  · exact (unswayed_store _ _).bind fun _ => unswayed_pure _
  · refine (unswayed_modelFor model).bind fun m => ?_
    refine (unswayed_submitWithRetry m steps mode).bind fun raw => ?_
    split
    · exact unswayed_pure _
    · split
      · exact unswayed_check _
      · exact unswayed_pure _

/-- A traversal of the caller's own is executed like others. -/
private theorem unswayed_executeGiven (model : Option String)
    (steps : List Step) (options mode : Value) :
    Unswayed (executeGiven model steps options mode) :=
  (unswayed_check _).bind fun _ => (unswayed_check _).bind fun _ =>
    unswayed_execute _ _ _ _

-- ============================================================= operations

/-- A creation, part by part as it is defined. -/
private theorem unswayed_create (model : Option String)
    (record options : Value) : Unswayed (create model record options) := by
  refine (unswayed_check _).bind fun o => Unswayed.observed ?_ "create" model
  refine (unswayed_build (unswayed_source o) _ _).bind fun steps => ?_
  refine (unswayed_execute _ _ _ _).bind fun result => ?_
  split
  · exact unswayed_pure _
  · exact unswayed_pure _

/-- A read of records: the rows are turned into records behind the
submission. -/
private theorem unswayed_all (model : Option String) (filter options : Value) :
    Unswayed (all model filter options) := by
  refine (unswayed_check _).bind fun o => Unswayed.observed ?_ "all" model
  refine (unswayed_model model).bind fun m => ?_
  refine (unswayed_build (unswayed_pure []) _ _).bind fun steps => ?_
  refine (unswayed_execute _ _ _ _).bind fun rows => ?_
  split
  · exact (unswayed_check _).bind fun _ => (unswayed_check _).bind fun _ =>
      (unswayed_check _).bind fun _ => unswayed_pure _
  · exact unswayed_pure _

/-- The first record is read like all records. -/
private theorem unswayed_findOne (model : Option String) (filter : Value) :
    Unswayed (findOne model filter) :=
  (unswayed_check _).bind fun _ => (unswayed_all _ _ _).bind fun _ =>
    unswayed_pure _

/-- So is a record by its id. -/
private theorem unswayed_findById (model : Option String) (id filter : Value) :
    Unswayed (findById model id filter) :=
  (unswayed_model model).bind fun _ => (unswayed_check _).bind fun _ =>
    (unswayed_check _).bind fun _ => (unswayed_all _ _ _).bind fun _ =>
      unswayed_pure _

/-- Whether there is a record is told by its count. -/
private theorem unswayed_presence (model : Option String) (id : Value) :
    Unswayed (presence model id) :=
  Unswayed.observed ((unswayed_build (unswayed_pure []) _ _).bind fun _ =>
    (unswayed_execute _ _ _ _).bind fun _ => (unswayed_check _).bind fun _ =>
      unswayed_pure _) _ _

/-- A count, part by part. -/
private theorem unswayed_count (model : Option String) (filter : Value) :
    Unswayed (count model filter) :=
  Unswayed.observed ((unswayed_build (unswayed_pure []) _ _).bind fun _ =>
    (unswayed_execute _ _ _ _).bind fun _ => unswayed_check _) _ _

/-- A destruction is a count and, unless that is zero, a drop. -/
private theorem unswayed_destroyAll (model : Option String)
    (filter options : Value) : Unswayed (destroyAll model filter options) := by
  refine (unswayed_check _).bind fun o => (unswayed_count model filter).bind
    fun matched => ?_
  split
  · exact unswayed_pure _
  · refine Unswayed.observed ?_ "destroy_all" model
    exact (unswayed_build (unswayed_source o) _ _).bind fun _ =>
      (unswayed_execute _ _ _ _).bind fun _ => unswayed_pure _

/-- A replacement, part by part. -/
private theorem unswayed_replaceById (model : Option String)
    (id record options : Value) :
    Unswayed (replaceById model id record options) := by
  refine (unswayed_check _).bind fun _ => (unswayed_check _).bind fun o => ?_
  refine Unswayed.observed ?_ "replace_by_id" model
  exact (unswayed_build (unswayed_source o) _ _).bind fun _ =>
    (unswayed_execute _ _ _ _).bind fun _ => unswayed_pure _

/-- An update is a change that counts. -/
private theorem unswayed_updateAll (model : Option String)
    (filter record options : Value) :
    Unswayed (updateAll model filter record options) := by
  refine (unswayed_check _).bind fun o =>
    Unswayed.observed ?_ "update_all" model
  refine (unswayed_build (unswayed_source o) _ _).bind fun steps => ?_
  refine (unswayed_execute _ _ _ _).bind fun result => ?_
  split
  · exact unswayed_pure _
  · exact (unswayed_check _).bind fun _ => unswayed_pure _

/-- A transaction begins at the time of the clock, which no sink moves. -/
private theorem unswayed_begin (timeout : Value) :
    Unswayed (begin timeout) := fun _ => rfl

/-- The work of a transaction is taken out of a table that stays. -/
private theorem unswayed_takePending (tx : String) :
    Unswayed (takePending tx) := by
  intro c
  simp only [takePending, run, unmetered_transactions]
  cases c.transactions.commit tx <;> rfl

/-- A commit takes the work and submits it. -/
private theorem unswayed_commit (tx : String) : Unswayed (commit tx) := by
  refine Unswayed.observed ((unswayed_takePending tx).bind fun work => ?_)
    "commit" none
  split
  · exact unswayed_pure _
  · exact (unswayed_submitOnce _ _).bind fun _ => unswayed_pure _

/-- A connection is opened without the sink. -/
private theorem unswayed_connect : Unswayed connect := by
  refine unswayed_change (fun c => ?_) _
  show (if c.openable then c.unmetered.note .opened else c.unmetered) = _
  cases c.openable with
  | false => rfl
  | true => exact (unmetered_note rfl c).symm

/-- And closed without it. -/
private theorem unswayed_close : Unswayed close :=
  unswayed_change (fun _ => by rfl) _

/-- A count in a connector of its own ends with its close, whatever comes of
the count. -/
private theorem unswayed_countInContext (model : Option String) :
    Unswayed (countInContext model) := by
  refine unswayed_connect.bind fun _ c => ?_
  simp only [run, unswayed_count model .null c]
  rcases count model .null c with ⟨e | n, c'⟩ <;> rfl

/-- A registration changes the models only. -/
private theorem unswayed_register (definition : Value) :
    Unswayed (register definition) := by
  intro c
  simp only [register, run, unmetered_registry]
  cases c.registry.registerDefinition definition <;> rfl

/-- What is pending is asked for, and stays. -/
private theorem unswayed_pendingWork (tx : String) :
    Unswayed (pendingWork tx) := by
  refine (unswayed_ask fun _ => rfl).bind fun work => ?_
  split
  · exact unswayed_pure _
  · exact unswayed_pure _

end Act

-- =================================================================== runs

open Act in
/-- Every call goes the same way without a sink. -/
private theorem Call.unswayed_act (call : Call) : Unswayed call.act := by
  -- one line per operation: the fact about its own action
  cases call with
  | create model record options => exact unswayed_create model record options
  | save model record options =>
      exact (unswayed_model model).bind fun _ =>
        (unswayed_check _).bind fun _ => unswayed_replaceById _ _ _ _
  | all model filter options => exact unswayed_all model filter options
  | findOne model filter => exact unswayed_findOne model filter
  | findById model id filter => exact unswayed_findById model id filter
  | presence model id => exact unswayed_presence model id
  | count model filter =>
      exact (unswayed_count model filter).bind fun _ => unswayed_pure _
  | destroyAll model filter options =>
      exact unswayed_destroyAll model filter options
  | destroyById model id options =>
      exact (unswayed_model model).bind fun _ =>
        (unswayed_check _).bind fun _ => unswayed_destroyAll _ _ _
  | replaceById model id record options =>
      exact unswayed_replaceById model id record options
  | updateAll model filter record options =>
      exact unswayed_updateAll model filter record options
  | begin timeout => exact unswayed_begin timeout
  | commit tx => exact unswayed_commit tx
  | rollback tx => exact unswayed_change (fun _ => by rfl) _
  | connect => exact unswayed_connect
  | close => exact unswayed_close
  | context model => exact unswayed_countInContext model
  | pending tx => exact unswayed_pendingWork tx
  | hasModel model => exact unswayed_ask fun _ => rfl
  | register definition => exact unswayed_register definition
  | execute steps options mode =>
      exact (unswayed_executeGiven _ _ _ _).observed _ _
  | engine model steps options mode =>
      exact unswayed_executeGiven model steps options mode
  | submitOnce steps mode =>
      exact (unswayed_check _).bind fun _ => unswayed_submitOnce _ _
  | advance milliseconds => exact unswayed_change (fun _ => by rfl) _
  | failNext failures => exact unswayed_change (fun _ => by rfl) _
  | reply values => exact unswayed_change (fun _ => by rfl) _
  | failReconnect failure => exact unswayed_change (fun _ => by rfl) _
  | look => exact unswayed_pure _

namespace Connector

/-- A call on a connector without its sink gives what the call gives, and
leaves what it leaves without the sink. -/
private theorem perform_unmetered (c : Connector) (call : Call) :
    c.unmetered.perform call
      = ((c.perform call).1, (c.perform call).2.unmetered) := by
  show ((call.act c.unmetered).1, (call.act c.unmetered).2.settle) = _
  rw [call.unswayed_act c]
  rfl

/-- Without a sink there is the same to see of a run. -/
private theorem sights_unmetered (c : Connector) (calls : List Call) :
    c.unmetered.sights calls = c.sights calls := by
  induction calls generalizing c with
  | nil => rfl
  | cons call calls ih =>
      simp only [sights, perform_unmetered, sight_unmetered, ih]

/-- Connectors made of the same differ in nothing but their sinks. -/
private theorem ofSettings_unmetered (settings : Settings)
    (definitions : List Value)
    (graph : Graph) (sink sink' : Sink) (openable : Bool) :
    (ofSettings settings definitions graph sink openable).map unmetered
      = (ofSettings settings definitions graph sink' openable).map
        unmetered := by
  unfold ofSettings
  cases Registry.ofDefinitions definitions .empty with
  | error e => rfl
  | ok registry =>
      cases hmade : Transactions.ofTimeout (.int settings.timeout) with
      | error e => rfl
      | ok transactions => rfl

/-- Whether the sink takes notes, fails at each of them or is absent, a
connector is made alike, and at every one of its calls there is the same to
see. -/
theorem metrics_sway_nothing (settings : Settings) (definitions : List Value)
    (graph : Graph) (openable : Bool) (calls : List Call) (sink sink' : Sink) :
    (ofSettings settings definitions graph sink openable).map (·.sights calls)
      = (ofSettings settings definitions graph sink' openable).map
        (·.sights calls) := by
  have hsights : ∀ made : Checked Connector,
      made.map (·.sights calls)
        = (made.map unmetered).map (·.sights calls) := by
    rintro (e | c)
    · rfl
    · exact congrArg Except.ok (sights_unmetered c calls).symm
  rw [hsights, ofSettings_unmetered settings definitions graph sink sink'
    openable, ← hsights]

end Connector

end GraphMapper

/-
What the operations of a connector leave alone.

An operation is put together from a few parts: it asks the connector, decides
something, tells the sink, and submits. A relation between the connector before
and after a part holds between before and after the whole if it can be
composed, and if it does not mind a note of an effect or the passage of time
(`Frame`). Where it minds observations, it does so for some operations only
(`FrameFor`). The closure lemmas below then read like the operations themselves
(`Keeps`).

Two such relations are of use. The registry of models stays and transactions at
most end (`Connector.Settled`): all but changes under a transaction, the
opening of one and the registration of a model do that. The graph stays
(`Connector.SameGraph`): that is up to the steps that are submitted.

# How the closure lemmas are used

A proof that an operation keeps a relation follows the operation line by line:
`Keeps.bind` for each line, and for the line itself the lemma of what stands
there. The only assumption that such a proof has left is about the submission
at its end (`hsubmit`, `hexecute`), and there the relations differ. Those that
mind changes ask that the steps only read; `Settled` does not even mind those.

Chain: `Transaction.Narrowing` for what can end; used by `Connector.Work`,
`Connector.Unmetered` and `Execution.Script`.
-/
import GraphMapper.Connector.Call
import GraphMapper.Proofs.Query.Paging
import GraphMapper.Proofs.Transaction.Narrowing

namespace GraphMapper

-- ================================================================ running

namespace Act

variable {α β : Type}

/-- An act that goes on after another one starts with the connector that this
has left. -/
theorem bind_apply (a : Act α) (k : α → Act β) (c : Connector) :
    (a >>= k) c
      = match a c with
        | (.ok x, c) => k x c
        | (.error e, c) => (.error e, c) := by
  show (match a c with | (out, c) => ExceptT.bindCont k out c) = _
  rcases a c with ⟨out | out, c'⟩ <;> rfl

/-- Once the first act has failed there is no second. -/
theorem bind_apply_error {a : Act α} {k : α → Act β} {c c' : Connector}
    {e : Failure} (h : a c = (.error e, c')) :
    (a >>= k) c = (.error e, c') := by
  rw [bind_apply, h]

/-- What comes after a part that gives `x` goes on where that part has left the
connector. -/
theorem bind_apply_ok {a : Act α} {k : α → Act β} {c c' : Connector} {x : α}
    (h : a c = (.ok x, c')) : (a >>= k) c = k x c' := by
  rw [bind_apply, h]

/-- Observing does not change what comes of an act. -/
theorem observed_fst (operation : String) (model : Option String) (act : Act α)
    (c : Connector) :
    (observed operation model act c).1 = (act c).1 := by
  unfold observed
  rcases act c with ⟨out | out, c'⟩ <;> rfl

/-- Observing leaves at most a note behind. -/
theorem observed_snd (operation : String) (model : Option String) (act : Act α)
    (c : Connector) :
    (observed operation model act c).2 = (act c).2 ∨
      ∃ ok code, (observed operation model act c).2
        = (act c).2.note (.observed operation ok code (named model)) := by
  have hreport : ∀ (c : Connector) (e : Effect),
      c.report e = c ∨ c.report e = c.note e := by
    intro c e
    unfold Connector.report Connector.tell
    split
    · exact .inr rfl
    · exact .inr rfl
    · exact .inl rfl
  unfold observed
  rcases act c with ⟨e | a, c'⟩
  · exact (hreport c' _).imp id fun h => ⟨false, _, h⟩
  · exact (hreport c' _).imp id fun h => ⟨true, _, h⟩

/-- To observe touches no transaction. -/
theorem observed_transactions (operation : String) (model : Option String)
    (act : Act α) (c : Connector) :
    (observed operation model act c).2.transactions
      = (act c).2.transactions := by
  rcases observed_snd operation model act c with h | ⟨ok, code, h⟩
  · rw [h]
  · rw [h]
    rfl

/-- Nor what the server holds. -/
theorem observed_server (operation : String) (model : Option String)
    (act : Act α) (c : Connector) :
    (observed operation model act c).2.server = (act c).2.server := by
  rcases observed_snd operation model act c with h | ⟨ok, code, h⟩
  · rw [h]
  · rw [h]
    rfl

end Act

-- ================================================================= frames

/-- The submission that an effect is, if it is one. -/
def Effect.submission? : Effect → Option (Mode × List Step)
  | .submitted mode steps => some (mode, steps)
  | _ => none

/-- The operation that an effect is the observation of, if it is one. -/
def Effect.operation? : Effect → Option String
  | .observed operation _ _ _ => some operation
  | _ => none

/-- A relation between what was and what is that can be composed, and that
neither a note of an effect nor the passage of time can break. Submissions are
more than a note, and so are observations of operations other than the given
ones. -/
structure FrameFor (operations : String → Prop)
    (R : Connector → Connector → Prop) : Prop where
  refl : ∀ c, R c c
  trans : ∀ {a b c}, R a b → R b c → R a c
  note : ∀ c e, e.submission? = none →
    (∀ operation, e.operation? = some operation → operations operation) →
    R c (c.note e)
  advance : ∀ c milliseconds, R c (c.advance milliseconds)

/-- The relation does not mind observations at all. -/
abbrev Frame (R : Connector → Connector → Prop) : Prop :=
  FrameFor (fun _ => True) R

namespace Act

/-- The relation holds between the connector before the act and the one after
it. -/
def Keeps {α : Type} (R : Connector → Connector → Prop) (act : Act α) : Prop :=
  ∀ c, R c (act c).2

variable {α β : Type} {R : Connector → Connector → Prop}
  {operations : String → Prop}

/-- To answer keeps the connector as it is. -/
theorem keeps_pure (h : FrameFor operations R) (a : α) :
    Keeps R (pure a : Act α) :=
  fun c => h.refl c

/-- To ask does not change it. -/
theorem keeps_ask (h : FrameFor operations R) (f : Connector → Checked α) :
    Keeps R (ask f) :=
  fun c => h.refl c

/-- Nor does a check, passed or not. -/
theorem keeps_check (h : FrameFor operations R) (r : Checked α) :
    Keeps R (check r) :=
  fun c => h.refl c

/-- What follows an act has to keep the relation only for what the act may come
to. -/
theorem Keeps.bind_of (h : FrameFor operations R) {a : Act α} {k : α → Act β}
    (ha : Keeps R a) (hk : ∀ x c c', a c = (.ok x, c') → Keeps R (k x)) :
    Keeps R (a >>= k) := by
  intro c
  rw [bind_apply]
  have hfirst := ha c
  cases hr : a c with
  | mk out c' =>
      rw [hr] at hfirst
      cases out with
      | error e => exact hfirst
      | ok x => exact h.trans hfirst (hk x c c' hr c')

/-- One part after another keeps what both keep. -/
theorem Keeps.bind (h : FrameFor operations R) {a : Act α} {k : α → Act β}
    (ha : Keeps R a) (hk : ∀ x, Keeps R (k x)) : Keeps R (a >>= k) :=
  ha.bind_of h fun x _ _ _ => hk x

/-- The sink at most takes a note. -/
private theorem keeps_report (h : FrameFor operations R) {e : Effect}
    (he : e.submission? = none)
    (hop : ∀ operation, e.operation? = some operation → operations operation)
    (c : Connector) :
    R c (c.report e) := by
  unfold Connector.report Connector.tell
  split
  · exact h.note c e he hop
  · exact h.note c e he hop
  · exact h.refl c

/-- An observed part keeps what the part keeps, for an operation that the
relation does not mind. -/
theorem Keeps.observedAs (h : FrameFor operations R) {act : Act α}
    (ha : Keeps R act) {operation : String} (hop : operations operation)
    (model : Option String) :
    Keeps R (observed operation model act) := by
  have hmatch : ∀ ok code op,
      (Effect.observed operation ok code (named model)).operation? = some op →
      operations op :=
    fun _ _ op h => Option.some.inj h ▸ hop
  intro c
  unfold Act.observed
  have hact := ha c
  cases hr : act c with
  | mk out c' =>
      rw [hr] at hact
      cases out with
      | error e => exact h.trans hact (keeps_report h rfl (hmatch _ _) c')
      | ok a => exact h.trans hact (keeps_report h rfl (hmatch _ _) c')

/-- The same for a relation that minds no observation. -/
theorem Keeps.observed (h : Frame R) {act : Act α} (ha : Keeps R act)
    (operation : String) (model : Option String) :
    Keeps R (observed operation model act) :=
  ha.observedAs h trivial model

-- ============================================================ submissions

/-- Getting ready for a repetition takes notes and time, no more. -/
theorem keeps_prepareRetry (h : FrameFor operations R) (m : Model)
    (e : Failure) (reconnect : Bool) :
    Keeps R (run (Connector.host.prepareRetry m e reconnect)) := by
  intro c
  have hconnected : R c
      (if reconnect then Connector.host.reconnect c else (.ok (), c)).2 := by
    split
    · exact h.note c _ rfl fun _ h => nomatch h
    · exact h.refl c
  unfold run Host.prepareRetry
  cases hr : (if reconnect then Connector.host.reconnect c
    else (.ok (), c)) with
  | mk out c' =>
      rw [hr] at hconnected
      cases out with
      | error _ => exact hconnected
      | ok _ =>
          have hcounted : R c (c'.report (.counted m.label)) :=
            h.trans hconnected (keeps_report h (e := .counted m.label) rfl
              (fun _ h => nomatch h) c')
          cases Host.waitSeconds m with
          | error slip => exact hcounted
          | ok seconds =>
              have hslept :=
                h.note (c'.report (.counted m.label)) (.slept seconds) rfl
                  fun _ h => nomatch h
              exact h.trans hcounted (h.trans hslept (h.advance _ _))

/-- Repetitions keep what one submission keeps. -/
theorem keeps_submitAgain (h : FrameFor operations R) {steps : List Step}
    {mode : Mode} (hsubmit : Keeps R (submitOnce steps mode)) (m : Model)
    (left : Nat) :
    Keeps R (run (Connector.host.submitAgain m steps mode left)) := by
  -- on the attempts left; the first submission is kept in both cases
  induction left with
  | zero =>
      intro c
      have hfirst : R c (Connector.host.submit steps mode c).2 := hsubmit c
      unfold run Host.submitAgain
      cases hr : Connector.host.submit steps mode c with
      | mk out c' =>
          rw [hr] at hfirst
          cases out with
          | ok v => exact hfirst
          | error e =>
              cases hdecision : RetryDecision.ofFailure e (some m) with
              | error _ =>
                  simp only [hdecision]
                  exact hfirst
              | ok _ =>
                  simp only [hdecision]
                  exact hfirst
  | succ left ih =>
      intro c
      have hfirst : R c (Connector.host.submit steps mode c).2 := hsubmit c
      unfold run Host.submitAgain
      cases hr : Connector.host.submit steps mode c with
      | mk out c' =>
          rw [hr] at hfirst
          cases out with
          | ok v => exact hfirst
          | error e =>
              cases hdecision : RetryDecision.ofFailure e (some m) with
              | error _ =>
                  simp only [hdecision]
                  exact hfirst
              | ok decision =>
                  simp only [hdecision]
                  cases decision.retryable with
                  | false => exact hfirst
                  | true =>
                      have hready :=
                        keeps_prepareRetry h m e decision.reconnect c'
                      unfold run at hready
                      simp only [if_true]
                      cases hp : Connector.host.prepareRetry m e
                          decision.reconnect c' with
                      | mk out c'' =>
                          rw [hp] at hready
                          cases out with
                          | error _ => exact h.trans hfirst hready
                          | ok _ =>
                              -- first submission, preparation and the attempts
                              -- left, one after another
                              exact h.trans hfirst (h.trans hready (ih c''))

/-- A submission that is tried again keeps what one try keeps: the waits and
reconnections between the tries are time that passes and effects that are
noted. -/
private theorem keeps_submitWithRetry (h : FrameFor operations R)
    {steps : List Step}
    {mode : Mode} (hsubmit : Keeps R (submitOnce steps mode))
    (model : Option Model) :
    Keeps R (run (Connector.host.submitWithRetry model steps mode)) := by
  cases model with
  | none => exact hsubmit
  | some m => exact keeps_submitAgain h hsubmit m m.retry.attempts

/-- The model is looked up. -/
private theorem keeps_modelFor (h : FrameFor operations R)
    (model : Option String) : Keeps R (modelFor model) := by
  unfold modelFor
  split
  · exact keeps_pure h _
  · exact (keeps_ask h _).bind h fun _ => keeps_pure h _

/-- Outside of a transaction an execution keeps what one submission keeps. -/
theorem keeps_execute (h : FrameFor operations R) {steps : List Step}
    {mode : Mode} {o : Options} (hsubmit : Keeps R (submitOnce steps mode))
    (ho : o.joined = none) (model : Option String) :
    Keeps R (execute model steps o mode) := by
  unfold execute
  rw [ho]
  refine (keeps_modelFor h model).bind h fun m => ?_
  refine (keeps_submitWithRetry h hsubmit m).bind h fun raw => ?_
  split
  · exact keeps_pure h _
  · split
    · exact keeps_check h _
    · exact keeps_pure h _

/-- The steps of an operation are found without changing anything. -/
theorem keeps_build (h : FrameFor operations R) {source : Act (List Step)}
    (hs : Keeps R source) (model : Option String)
    (operation : Model → Build Unit) :
    Keeps R (build model source operation) :=
  hs.bind h fun _ => (keeps_ask h _).bind h fun _ => keeps_check h _

-- =================================================================== reads

/-- A read is built from nothing. -/
theorem traversalFrom_of_build {model : Option String}
    {operation : Model → Build Unit} {steps : List Step} {c c' : Connector}
    (h : build model (pure []) operation c = (.ok steps, c')) :
    ∃ m, Build.traversalFrom [] (operation m) = .ok steps := by
  have hrun : build model (pure []) operation c
      = match c.registry.get model with
        | .ok m => (Build.traversalFrom [] (operation m), c)
        | .error e => (.error e, c) := by
    rw [build, bind_apply_ok (show (pure [] : Act (List Step)) c
      = (.ok [], c) from rfl), bind_apply, ask]
    cases c.registry.get model <;> rfl
  rw [hrun] at h
  split at h
  · next m _ => exact ⟨m, congrArg Prod.fst h⟩
  · cases h

section

variable (h : Frame R)
  (hsubmit : ∀ steps, Graph.readsOnly steps = true → ∀ mode,
    Keeps R (submitOnce steps mode))

include h hsubmit

/-- A read starts at nothing, outside of transactions, and submits steps that
only read. -/
private theorem keeps_read {k : Value → Act β} (hk : ∀ v, Keeps R (k v))
    (model : Option String) {operation : Model → Build Unit}
    (hreads : ∀ m steps,
      Build.traversalFrom [] (operation m) = .ok steps →
      Graph.readsOnly steps = true)
    {o : Options} (ho : o.joined = none) (mode : Mode) :
    Keeps R (build model (pure []) operation >>= fun steps =>
        execute model steps o mode >>= k) := by
  refine (keeps_build h (keeps_pure h _) model operation).bind_of h
    fun steps c c' hbuild => ?_
  obtain ⟨m, hsteps⟩ := traversalFrom_of_build hbuild
  exact (keeps_execute h (hsubmit steps (hreads m steps hsteps) mode) ho
    model).bind h hk

/-- To count only reads. -/
theorem keeps_count (model : Option String) (filter : Value) :
    Keeps R (count model filter) := by
  refine Keeps.observed h
    (keeps_read h hsubmit (fun _ => keeps_check h _) _ ?_ rfl _) _ _
  exact fun _ _ => Query.readsOnly_count

/-- So does to look for an element by its id. -/
theorem keeps_presence (model : Option String) (id : Value) :
    Keeps R (presence model id) := by
  refine Keeps.observed h (keeps_read h hsubmit (fun _ => ?_) _ ?_ rfl _) _ _
  · exact (keeps_check h _).bind h fun _ => keeps_pure h _
  · exact fun _ _ => Query.readsOnly_presence

/-- So does to list. -/
theorem keeps_all (model : Option String) (filter options : Value) :
    Keeps R (all model filter options) := by
  refine (keeps_check h _).bind h fun o => Keeps.observed h ?_ _ _
  refine (keeps_ask h _).bind h fun m =>
    keeps_read h hsubmit (fun rows => ?_) _ ?_ rfl _
  · split
    · refine (keeps_check h _).bind h fun fields => (keeps_check h _).bind h
        fun items => ?_
      exact (keeps_check h _).bind h fun _ => keeps_pure h _
    · exact keeps_pure h _
  · exact fun _ _ => Query.readsOnly_query

/-- So does to find the first. -/
theorem keeps_findOne (model : Option String) (filter : Value) :
    Keeps R (findOne model filter) :=
  (keeps_check h _).bind h fun query =>
    (keeps_all h hsubmit model query .null).bind h fun _ => keeps_pure h _

/-- And to find by id. -/
theorem keeps_findById (model : Option String) (id filter : Value) :
    Keeps R (findById model id filter) := by
  refine (keeps_ask h _).bind h fun m => (keeps_check h _).bind h fun _ => ?_
  refine (keeps_check h _).bind h fun query => ?_
  exact (keeps_all h hsubmit model query .null).bind h fun _ => keeps_pure h _

end

/-- To connect changes nothing that a frame is about. -/
theorem keeps_connect (h : Frame R) : Keeps R connect := by
  intro c
  show R c (if c.openable then c.note .opened else c)
  split
  · exact h.note c _ rfl fun _ _ => trivial
  · exact h.refl c

/-- Whatever comes of the count, the connection is closed behind it. -/
theorem keeps_countInContext (h : Frame R)
    (hsubmit : ∀ steps, Graph.readsOnly steps = true → ∀ mode,
      Keeps R (submitOnce steps mode))
    (hclose : Keeps R close)
    (model : Option String) : Keeps R (countInContext model) := by
  refine (keeps_connect h).bind h fun _ c => ?_
  have hcount := keeps_count h hsubmit model .null c
  cases hr : count model .null c with
  | mk out c' =>
      rw [hr] at hcount
      simp only [run, hr]
      cases out with
      | error e => exact h.trans hcount (hclose c')
      | ok n => exact h.trans hcount (hclose c')

/-- A commit takes what is pending and submits it. -/
theorem keeps_commit (h : Frame R)
    (hsubmit : ∀ steps mode, Keeps R (submitOnce steps mode)) {tx : String}
    (htake : Keeps R (takePending tx)) : Keeps R (commit tx) := by
  refine Keeps.observed h (htake.bind h fun work => ?_) _ _
  cases work with
  | none => exact keeps_pure h _
  | some steps => exact (hsubmit steps .iterate).bind h fun _ => keeps_pure h _

end Act

-- =========================================================== two relations

namespace Connector

/-- Models stay as they are, and transactions at most end. -/
def Settled (c c' : Connector) : Prop :=
  c'.registry = c.registry ∧ c.transactions.Narrows c'.transactions

/-- Work that is settled has come to an end. -/
theorem settled_settle (c : Connector) : Settled c c.settle :=
  ⟨rfl, Transactions.narrows_expire _ _⟩

/-- What has come to an end has done so whatever is noted and however late it
is. -/
theorem frame_settled : Frame Settled where
  refl _ := ⟨rfl, .refl _⟩
  trans h h' := ⟨h'.1.trans h.1, h.2.trans h'.2⟩
  note _ _ _ _ := ⟨rfl, .refl _⟩
  advance c milliseconds :=
    settled_settle { c with clock := c.clock + milliseconds }

/-- A submission is none of the transactions' business. -/
theorem settled_submitOnce (steps : List Step) (mode : Mode) :
    Act.Keeps Settled (Act.submitOnce steps mode) := fun _ => ⟨rfl, .refl _⟩

/-- The server's graph stays as it is. -/
def SameGraph (c c' : Connector) : Prop := c'.server.graph = c.server.graph

/-- The graph changes with neither. -/
theorem frame_sameGraph : Frame SameGraph where
  refl _ := rfl
  trans h h' := h'.trans h
  note _ _ _ _ := rfl
  advance _ _ := rfl

end Connector

end GraphMapper

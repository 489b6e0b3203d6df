/-
What any run of calls makes of a connector.

A connector is fit if its models are proper, if the traversals that wait in
transactions are made of values that applications can make, and if its graph is
one that can be reached (`Connector.IsFit`). Every call that is made with such
values leaves a fit connector fit, whatever comes of it. Reads submit steps
that change nothing, so their arguments may be anything. All else is built from
the arguments and proper models, behind work that is pending, and is submitted
or waits in its turn.

Main statement: `fit_runCalls`.

Chain: `Connector.Proper` for what each call brings with it, `Graph.Reachable`
for the graph; `Connector.Lookup` looks elements up after any run.
-/
import GraphMapper.Proofs.Connector.Answers
import GraphMapper.Proofs.Connector.Proper
import GraphMapper.Proofs.Graph.Reachable

namespace GraphMapper

open Value (stepsAreProper)

-- ================================================================== fitness

namespace Connector

variable {c c' : Connector}

/-- Models, waiting traversals and the graph are such as applications can bring
about. -/
structure IsFit (c : Connector) : Prop where
  models : c.registry.IsProper
  accounted : c.transactions.Accounted
  pending : ∀ tx steps, c.transactions.pending tx = .ok (some steps) →
    stepsAreProper steps = true
  graph : c.server.graph.Reachable

/-- What is fit has stayed fit. -/
abbrev StaysFit (c c' : Connector) : Prop := c.IsFit → c'.IsFit

/-- Only models, transactions and the graph are looked at, and transactions may
end. -/
theorem IsFit.settled (h : c.IsFit) (hs : Settled c c')
    (hgraph : c'.server.graph.Reachable) :
    c'.IsFit where
  models := hs.1 ▸ h.models
  accounted := h.accounted.narrows hs.2
  pending := by
    intro tx steps hpending
    rw [hs.2.pending tx (Transactions.isOpen_of_pending hpending)] at hpending
    exact h.pending tx steps hpending
  graph := hgraph

/-- What settles and leaves the graph alone keeps a connector fit. -/
private theorem staysFit_of_settled (hs : Settled c c')
    (hgraph : SameGraph c c') : StaysFit c c' := by
  intro h
  refine h.settled hs ?_
  rw [show c'.server.graph = c.server.graph from hgraph]
  exact h.graph

/-- A fit connector stays so with the clock, and with what is noted. -/
private theorem lasting_fit : Act.Lasting IsFit where
  refl _ h := h
  trans h h' hc := h' (h hc)
  note c e he hop := staysFit_of_settled (frame_settled.note c e he hop)
    (frame_sameGraph.note c e he hop)
  advance c milliseconds :=
    staysFit_of_settled (frame_settled.advance c milliseconds)
      (frame_sameGraph.advance c milliseconds)

/-- Work that is proper may be stored. -/
theorem IsFit.store (h : c.IsFit) {tx : String} {steps : List Step}
    (hsteps : stepsAreProper steps = true) {stored : Transactions (List Step)}
    (hstored : c.transactions.store tx (some steps) = .ok stored) :
    { c with transactions := stored }.IsFit where
  models := h.models
  accounted := h.accounted.store hstored
  pending := by
    intro tx' pending hpending
    by_cases hne : tx' = tx
    · rw [hne] at hpending
      rw [Option.some.inj (Transactions.eq_of_pending_store hstored hpending)]
      exact hsteps
    · have hother := Transactions.pending_store_of_ne hstored hne
      exact h.pending tx' pending (hother.symm.trans hpending)
  graph := h.graph

/-- A new transaction has no work yet. -/
theorem IsFit.begin (h : c.IsFit) (timeout : Value) :
    { c with transactions := (c.transactions.begin c.clock timeout).2 }.IsFit
      where
  models := h.models
  accounted := Transactions.accounted_begin h.accounted _ _
  pending := by
    intro tx pending hpending
    have hopen := Transactions.isOpen_of_pending hpending
    rcases Transactions.pending_begin h.accounted c.clock timeout hopen with
      ⟨-, hnew⟩ | ⟨-, hold⟩
    · cases hnew.symm.trans hpending
    · exact h.pending tx pending (hold.symm.trans hpending)
  graph := h.graph

end Connector

-- ==================================================================== parts

namespace Act

open Connector

variable {α β : Type} {P : α → Prop} {model : Option String}
  {steps : List Step} {builder : Model → Build Unit} {options : Value}

/-- What ensures a property keeps it. -/
theorem Ensures.keeps {I : Connector → Prop} {act : Act α}
    (h : Ensures I act P) :
    Keeps (fun c c' => I c → I c') act := fun c hc => (h c hc).1

/-- What is known of a result may be used for what follows. -/
private theorem Ensures.bind_keeps {I : Connector → Prop} {a : Act α}
    {k : α → Act β} (ha : Ensures I a P)
    (hk : ∀ x, P x → Keeps (fun c c' => I c → I c') (k x)) :
    Keeps (fun c c' => I c → I c') (a >>= k) :=
  (ha.bind (R := fun _ => True) fun x hx c hc =>
    ⟨hk x hx c hc, fun _ _ => trivial⟩).keeps

-- ============================================================ submissions

/-- A server goes by what a run of the steps makes of a graph. -/
private theorem staysFit_submit
    (h : ∀ g : Graph, g.Reachable → (g.evaluate steps).2.Reachable)
    (mode : Mode) : Keeps StaysFit (submitOnce steps mode) := by
  intro c hc
  refine hc.settled (settled_submitOnce steps mode c) ?_
  show (c.server.submit steps mode).2.graph.Reachable
  unfold Server.submit
  split
  · exact hc.graph
  · exact hc.graph
  · have hrun := h c.server.graph hc.graph
    unfold Server.evaluate
    rcases hgo : c.server.graph.evaluate steps with ⟨e | items, g⟩ <;>
    · rw [hgo] at hrun
      exact hrun

/-- Proper steps leave the graph one that can be reached. -/
private theorem staysFit_submitOnce (h : stepsAreProper steps = true)
    (mode : Mode) : Keeps StaysFit (submitOnce steps mode) :=
  staysFit_submit (fun _ hg => Graph.Reachable.evaluate hg h) mode

/-- Steps that read leave it as it is. -/
private theorem staysFit_reading (steps : List Step)
    (h : Graph.readsOnly steps = true) (mode : Mode) :
    Keeps StaysFit (submitOnce steps mode) := by
  refine staysFit_submit (fun g hg => ?_) mode
  rw [show (g.evaluate steps).2
      = g from Graph.run_reads steps h .plain [.start] g]
  exact hg

/-- Proper steps are submitted, or wait under a transaction. -/
private theorem staysFit_execute (h : stepsAreProper steps = true)
    (model : Option String) (o : Options) (mode : Mode) :
    Keeps StaysFit (execute model steps o mode) := by
  cases ho : o.joined with
  | none =>
      exact keeps_execute lasting_fit (staysFit_submitOnce h mode) ho model
  | some tx =>
      intro c hc
      rw [execute_joined ho]
      cases hstore : c.transactions.store tx (some steps) with
      | error e => exact hc
      | ok stored => exact hc.store h hstore

-- ================================================================ changes

/-- A change starts at nothing, or behind work that is proper. -/
private theorem ensures_source (o : Options) :
    Ensures IsFit (source o) fun steps => stepsAreProper steps = true := by
  unfold source
  split
  · exact ensures_pure rfl
  · next tx _ =>
    have hpending : Ensures IsFit (ask fun c => c.transactions.pending tx)
        fun work => ∀ steps, work = some steps → stepsAreProper steps = true :=
      ensures_ask fun c hc work hwork steps hsteps =>
        hc.pending tx steps (hsteps ▸ hwork)
    refine hpending.bind fun work hwork => ?_
    split
    · exact ensures_pure rfl
    · next steps =>
        exact ensures_pure (Value.stepsAreProper_append (hwork steps rfl) rfl)

/-- The models of a fit connector are proper. -/
private theorem ensures_model (model : Option String) :
    Ensures IsFit (ask fun c => c.registry.get model) Model.IsProper :=
  ensures_ask fun _ hc _ hm => hc.models.get hm

/-- A change is made of proper steps if its builder adds such. -/
private theorem staysFit_mutate
    (hbuilder : ∀ m : Model, m.IsProper → (builder m).AddsProper)
    (model : Option String) (o : Options) (mode : Mode) :
    Keeps StaysFit (mutate model builder o mode) := by
  have hbuild : Ensures IsFit (build model (source o) builder)
      fun steps => stepsAreProper steps = true := by
    refine (ensures_source o).bind fun start hstart => ?_
    refine (ensures_model model).bind fun m hm => ensures_check ?_
    intro steps hsteps
    obtain ⟨more, rfl, hmore⟩ := (hbuilder m hm).traversalFrom hsteps
    exact Value.stepsAreProper_append hstart
      (Value.stepsAreProper_iff.mpr hmore)
  exact hbuild.bind_keeps fun steps hsteps =>
    staysFit_execute hsteps model o mode

/-- The same with the reading of options around it. -/
private theorem staysFit_changing
    (hbuilder : ∀ m : Model, m.IsProper → (builder m).AddsProper)
    (operation : String) (model : Option String) (mode : Mode)
    {finish : Options → Value → Act Value}
    (hfinish : ∀ o v, Keeps StaysFit (finish o v)) :
    Keeps StaysFit (changing operation model builder mode options finish) := by
  refine keeps_options lasting_fit fun o _ => Keeps.observed lasting_fit ?_ _ _
  exact (staysFit_mutate hbuilder model o mode).bind lasting_fit (hfinish o)

/-- A replacement with a proper id and a proper record is. -/
private theorem staysFit_replaceById {id record : Value}
    (hid : id.isProper = true)
    (hrecord : record.isProper = true) (model : Option String)
    (options : Value) :
    Keeps StaysFit (replaceById model id record options) := by
  rw [replaceById_eq]
  refine (keeps_check lasting_fit _).bind lasting_fit fun _ => ?_
  exact staysFit_changing (fun m hm => Query.addsProper_replace hm hid hrecord)
    _ _ _ fun _ _ => keeps_pure lasting_fit _

/-- A destruction with a proper filter is. -/
private theorem staysFit_destroyAll {filter : Value}
    (hfilter : filter.isProper = true)
    (model : Option String) (options : Value) :
    Keeps StaysFit (destroyAll model filter options) := by
  have hcount := keeps_count lasting_fit staysFit_reading model filter
  rw [destroyAll_eq]
  refine keeps_options lasting_fit fun o _ => hcount.bind lasting_fit
    fun matched => ?_
  split
  · exact keeps_pure lasting_fit _
  · refine Keeps.observed lasting_fit ?_ _ _
    exact (staysFit_mutate (fun m hm => Query.addsProper_drop hm hfilter) model
      o _).bind lasting_fit fun _ => keeps_pure lasting_fit _

/-- So is a traversal of the caller's own, if its steps are proper. -/
private theorem staysFit_executeGiven (h : stepsAreProper steps = true)
    (model : Option String) (options mode : Value) :
    Keeps StaysFit (executeGiven model steps options mode) :=
  (keeps_check lasting_fit _).bind lasting_fit fun mode =>
    (keeps_check lasting_fit _).bind lasting_fit fun o =>
      staysFit_execute h model o mode

-- ============================================================ transactions

/-- What has waited is submitted. -/
private theorem staysFit_commit (tx : String) :
    Keeps StaysFit (commit tx) := by
  have htake : Ensures IsFit (takePending tx)
      fun work => ∀ steps,
      work = some steps → stepsAreProper steps = true := by
    intro c hc
    cases hcommit : c.transactions.commit tx with
    | error e =>
        simp only [takePending, run, hcommit]
        refine ⟨hc, fun work h => ?_⟩
        cases h
    | ok taken =>
        obtain ⟨hpending, hnarrows⟩ := Transactions.commit_eq_ok hcommit
        simp only [takePending, run, hcommit]
        refine ⟨hc.settled ⟨rfl, hnarrows⟩ hc.graph,
          fun work hwork steps hsteps => ?_⟩
        rw [← Except.ok.inj hwork] at hsteps
        exact hc.pending tx steps (hsteps ▸ hpending)
  refine Keeps.observed lasting_fit (htake.bind_keeps fun work hwork => ?_) _ _
  cases work with
  | none => exact keeps_pure lasting_fit _
  | some steps =>
      exact (staysFit_submitOnce (hwork steps rfl) .iterate).bind lasting_fit
        fun _ => keeps_pure lasting_fit _

/-- To close submits nothing. -/
private theorem staysFit_close : Keeps StaysFit close :=
  fun _ => staysFit_of_settled (settled_close _) rfl

end Act

-- ==================================================================== calls

/-- What the call has for a traversal or for a model is what an application can
make, also if it is submitted at once. -/
def Call.isMade : Call → Bool
  | .submitOnce steps _ => stepsAreProper steps
  | call => call.isProper

namespace Act

open Connector

/-- A call that is made of proper values keeps a connector fit, whatever comes
of it. -/
private theorem staysFit_act {call : Call} (hcall : call.isMade = true) :
    Keeps StaysFit call.act := by
  have hframe := lasting_fit
  -- the calls that script the server leave its graph alone
  have hscript : ∀ f : Server → Server, (∀ s, (f s).graph = s.graph) →
      Keeps StaysFit (Call.script f) :=
    fun f hf c => staysFit_of_settled ⟨rfl, .refl _⟩ (hf c.server)
  cases call
  case create model record options =>
    show Keeps StaysFit (create model record options)
    rw [create_eq]
    refine staysFit_changing (fun m hm => Query.addsProper_create hm hcall) _ _
      _ fun _ v => ?_
    cases v <;> exact keeps_pure hframe _
  case save model record options =>
    refine (ensures_model model).bind_keeps fun m hm => ?_
    have hentries : Ensures IsFit (check record.entries) fun es =>
        Value.haveProperKeys es = true :=
      ensures_check fun es hes => Value.haveProperKeys_of_entries hcall hes
    refine hentries.bind_keeps fun es hes => ?_
    exact staysFit_replaceById (Value.isProper_get hes _) hcall model options
  case replaceById model id record options =>
    obtain ⟨hid, hrecord⟩ := Bool.and_eq_true_iff.mp hcall
    exact staysFit_replaceById hid hrecord model options
  case updateAll model filter record options =>
    obtain ⟨hfilter, hrecord⟩ := Bool.and_eq_true_iff.mp hcall
    show Keeps StaysFit (updateAll model filter record options)
    rw [updateAll_eq]
    refine staysFit_changing
      (fun m hm => Query.addsProper_update hm hfilter hrecord) _ _ _
        fun _ v => ?_
    split
    · exact keeps_pure hframe _
    · exact (keeps_check hframe _).bind hframe fun _ => keeps_pure hframe _
  case destroyAll model filter options =>
      exact staysFit_destroyAll hcall model options
  case destroyById model id options =>
    refine (ensures_model model).bind_keeps fun m hm => ?_
    refine (keeps_check hframe _).bind hframe fun _ => ?_
    exact staysFit_destroyAll (Query.isProper_byId hm hcall) model options
  case execute steps options mode =>
    exact Keeps.observed hframe
      (staysFit_executeGiven hcall none options mode) _ _
  case engine model steps options mode =>
      exact staysFit_executeGiven hcall model options mode
  case submitOnce steps mode =>
    exact (keeps_check hframe _).bind hframe fun mode =>
      staysFit_submitOnce hcall mode
  case all model filter options =>
      exact keeps_all hframe staysFit_reading model filter options
  case findOne model filter =>
      exact keeps_findOne hframe staysFit_reading model filter
  case findById model id filter =>
      exact keeps_findById hframe staysFit_reading model id filter
  case presence model id =>
      exact keeps_presence hframe staysFit_reading model id
  case count model filter =>
    exact (keeps_count hframe staysFit_reading model filter).bind hframe
      fun _ => keeps_pure hframe _
  case context model =>
      exact keeps_countInContext hframe staysFit_reading staysFit_close model
  case begin timeout => exact fun c hc => hc.begin timeout
  case commit tx => exact staysFit_commit tx
  case rollback tx =>
    exact fun c =>
      staysFit_of_settled ⟨rfl, Transactions.narrows_rollback _ tx⟩ rfl
  case connect => exact keeps_connect hframe
  case close => exact staysFit_close
  case pending tx =>
    refine (keeps_ask hframe _).bind hframe fun work => ?_
    cases work with
    | none => exact keeps_pure hframe _
    | some steps => exact keeps_pure hframe _
  case hasModel model => exact keeps_ask hframe _
  case register definition =>
    intro c hc
    simp only [Call.act, register, run]
    split
    · next registry m hd => exact ⟨hc.models.registerDefinition hcall hd,
        hc.2, hc.3, hc.4⟩
    · exact hc
  case advance milliseconds => exact fun c => hframe.advance c milliseconds
  case failNext failures => exact hscript _ fun _ => rfl
  case reply values => exact hscript _ fun _ => rfl
  case failReconnect failure => exact hscript _ fun _ => rfl
  case look => exact keeps_pure hframe _

end Act

namespace Connector

variable {c : Connector}

-- ===================================================================== runs

/-- One call that is made of proper values keeps a connector fit. -/
private theorem fit_perform (hc : c.IsFit) {call : Call}
    (hcall : call.isMade = true) : (c.perform call).2.IsFit :=
  staysFit_of_settled (settled_settle _) rfl (Act.staysFit_act hcall c hc)

/-- Along any run of calls that are made of proper values a connector stays
fit, whatever comes of the calls. -/
theorem fit_runCalls (hc : c.IsFit) {calls : List Call}
    (hcalls : ∀ call ∈ calls, call.isMade = true) :
    (c.runCalls calls).IsFit := by
  induction calls generalizing c with
  | nil => exact hc
  | cons call calls ih =>
      exact ih (fit_perform hc (hcalls call List.mem_cons_self))
        fun later hlater => hcalls later (List.mem_cons_of_mem call hlater)

/-- A connector starts fit, with a graph that can be reached and models that
have been defined. -/
theorem fit_ofSettings {settings : Settings} {definitions : List Value}
    {graph : Graph} {sink : Sink} {openable : Bool}
    (hdefinitions : ∀ d ∈ definitions, d.isProper = true)
    (hgraph : graph.Reachable)
    (h : ofSettings settings definitions graph sink openable = .ok c) :
    c.IsFit where
  models := isProper_registry_ofSettings hdefinitions h
  accounted := (tracks_ofSettings h).accounted
  pending := by
    intro tx steps hpending
    have hopen := Transactions.isOpen_of_pending hpending
    have hnone := (tracks_ofSettings h).pending tx hopen
    cases hnone.symm.trans hpending
  graph := by
    rw [graph_ofSettings h]
    exact hgraph

end Connector

end GraphMapper

/-
A commit does what its changes would have done one by one.

Changes that are accepted under a transaction wait, and leave the graph as it
is: the only thing that reaches the server in the meantime is the count of a
destruction, which only reads (`sameGraph_joined`). What is submitted in the
end is the traversals of the changes with a `fold` between each two of them,
and running that is running them one after the other from the graph as it was
at first.

# Why a `fold` in between

A `fold` makes one item of all that came before, so that what is behind it runs
once, on the graph that is left. Each change begins with a step that takes no
account of what it is handed (`startsAfresh_work`), so it does the same there
as alone.

Main statement: `commit_eq_one_by_one`.

Chain: `Connector.Pending` for what a transaction holds, `Query.Appending` for
`fold`; `Connector.Destruction` takes destructions further.
-/
import GraphMapper.Proofs.Connector.Pending
import GraphMapper.Proofs.Query.Reading

namespace GraphMapper

namespace Act

open Connector

-- ============================================================ the same graph

/-- A submission of steps that only read leaves the graph, whatever the server
answers. -/
theorem sameGraph_submitOnce {steps : List Step}
    (h : Graph.readsOnly steps = true) (mode : Mode) :
    Keeps SameGraph (submitOnce steps mode) := by
  intro c
  show (c.server.submit steps mode).2.graph = c.server.graph
  unfold Server.submit
  split
  · rfl
  · rfl
  · have hreads : (c.server.graph.evaluate steps).2 = c.server.graph :=
      Graph.run_reads steps h .plain [.start] c.server.graph
    unfold Server.evaluate
    rcases hrun : c.server.graph.evaluate steps with ⟨e | items, graph⟩
    · rw [hrun] at hreads
      exact hreads
    · rw [hrun] at hreads
      exact hreads

theorem sameGraph_count (model : Option String) (filter : Value) :
    Keeps SameGraph (count model filter) :=
  keeps_count frame_sameGraph (fun _ h => sameGraph_submitOnce h) model filter

variable {o : Options} {tx : String}

private theorem sameGraph_execute (ho : o.joined = some tx)
    (model : Option String) (steps : List Step) (mode : Mode) :
    Keeps SameGraph (execute model steps o mode) := by
  intro c
  rw [execute_joined ho]
  cases c.transactions.store tx (some steps) <;> rfl

/-- A call that asks for work under a transaction leaves the graph. -/
theorem sameGraph_joined {call : Call} {w : Work} (hw : call.work? = some w)
    (hj : w.joins tx = true) : Keeps SameGraph call.act := by
  refine keeps_work frame_sameGraph hw sameGraph_count
    fun o ho model steps mode => ?_
  unfold Work.joins at hj
  rw [ho] at hj
  exact sameGraph_execute (beq_iff_eq.mp hj) model steps mode

end Act

-- =========================================================== beginning afresh

/-- What a change asks for begins afresh. -/
theorem startsAfresh_work {call : Call} {w : Work} (hw : call.work? = some w)
    (hr : w.replaces = false) {r : Registry} {s : List Step}
    (hs : w.steps r = .ok s) :
    Graph.startsAfresh s = true := by
  have hchange : ∀ {model builder options}, w = .change model builder options →
      (∀ m, Build.Begins (builder m)) → Graph.startsAfresh s = true := by
    intro model builder options heq hbegins
    rw [heq] at hs
    obtain ⟨m, -, hs⟩ := bind_eq_ok hs
    exact hbegins m s hs
  cases call
  case create model record options =>
    exact hchange (Option.some.inj hw).symm fun m =>
      Query.begins_create m record
  case save model record options =>
    exact hchange (Option.some.inj hw).symm fun m =>
      .of_check fun es _ => Query.begins_replace m _ record
  case replaceById model id record options =>
    exact hchange (Option.some.inj hw).symm fun m =>
      Query.begins_replace m id record
  case updateAll model filter record options =>
    exact hchange (Option.some.inj hw).symm fun m =>
      Query.begins_update m filter record
  case destroyAll model filter options =>
    exact hchange (Option.some.inj hw).symm fun m => Query.begins_drop m filter
  case destroyById model id options =>
    exact hchange (Option.some.inj hw).symm fun m => Query.begins_drop m _
  case execute steps options mode =>
    rw [← Option.some.inj hw] at hr
    cases hr
  case engine model steps options mode =>
    rw [← Option.some.inj hw] at hr
    cases hr
  all_goals exact absurd hw (by simp [Call.work?])

namespace Connector

open Transactions

-- ======================================================== undisturbed runs

/-- Every one of the calls is a change that is accepted under the transaction,
or one that is not accepted under it and leaves the graph as it is. -/
def Undisturbed (tx : String) (c : Connector) : List Call → Prop
  | [] => True
  | call :: calls =>
    (if c.accepts tx call then ∀ w, call.work? = some w → w.replaces = false
      else (c.perform call).2.server.graph = c.server.graph) ∧
      Undisturbed tx (c.perform call).2 calls

/-- All of the calls are changes that are accepted under the transaction. -/
def allAccepted (tx : String) (c : Connector) : List Call → Bool
  | [] => true
  | call :: calls =>
    c.accepts tx call && call.work?.all (!·.replaces) &&
      allAccepted tx (c.perform call).2 calls

variable {tx : String} {c : Connector}

/-- Accepted changes alone do not disturb each other. -/
theorem undisturbed_of_allAccepted {calls : List Call}
    (h : c.allAccepted tx calls = true) :
    c.Undisturbed tx calls := by
  induction calls generalizing c with
  | nil => trivial
  | cons call calls ih =>
      simp only [allAccepted, Bool.and_eq_true] at h
      obtain ⟨⟨haccepts, hchange⟩, hrest⟩ := h
      refine ⟨?_, ih hrest⟩
      rw [haccepts, if_pos rfl]
      intro w hw
      rw [hw] at hchange
      simpa using hchange

/-- What is accepted asks for work under the transaction, which can be told. -/
private theorem work_of_accepts {call : Call} (h : c.accepts tx call = true) :
    ∃ w, call.work? = some w ∧ w.joins tx = true := by
  unfold accepts at h
  split at h
  · next w answer hw _ =>
    rw [Bool.and_eq_true] at h
    exact ⟨w, hw, h.1⟩
  · cases h

/-- The graph is that of the beginning all along. -/
theorem graph_of_undisturbed {calls : List Call} (h : c.Undisturbed tx calls) :
    (c.runCalls calls).server.graph = c.server.graph := by
  induction calls generalizing c with
  | nil => rfl
  | cons call calls ih =>
      obtain ⟨hcall, hrest⟩ := h
      have hstep : (c.perform call).2.server.graph = c.server.graph := by
        split at hcall
        · next haccepts =>
          obtain ⟨w, hw, hj⟩ := work_of_accepts haccepts
          exact Act.sameGraph_joined hw hj c
        · exact hcall
      exact (ih hrest).trans hstep

/-- All that the transaction holds begins afresh. -/
theorem startsAfresh_of_undisturbed {calls : List Call}
    {held : List (List Step)} (h : c.Undisturbed tx calls)
    (hheld : ∀ s ∈ held, Graph.startsAfresh s = true) :
    ∀ s ∈ c.heldBy tx held calls, Graph.startsAfresh s = true := by
  induction calls generalizing c held with
  | nil => exact hheld
  | cons call calls ih =>
      obtain ⟨hcall, hrest⟩ := h
      refine ih hrest ?_
      cases haccepts : c.accepts tx call with
      | false =>
          rw [heldAfter_of_not_accepts haccepts]
          exact hheld
      | true =>
          rw [haccepts, if_pos rfl] at hcall
          rcases perform_transactions c call with ⟨hno, -⟩
            | ⟨w, tx', s, hw, hs, -, -⟩
          · rw [hno tx] at haccepts
            cases haccepts
          · rw [heldAfter_of_accepts haccepts hw hs, Work.addTo, hcall w hw]
            simp only [Bool.false_eq_true, if_false, List.mem_append,
              List.mem_singleton]
            rintro t (ht | rfl)
            · exact hheld t ht
            · exact startsAfresh_work hw (hcall w hw) hs

-- ================================================================== commits

/-- Submitting the pending work of a transaction to a server that has nothing
scripted is running the traversals that the transaction holds one by one. -/
private theorem submit_pendingOf {s : List Step} {rest : List (List Step)}
    {server : Server} (hfailures : server.failures = [])
    (hreplies : server.replies = [])
    (hafresh : ∀ t ∈ rest, Graph.startsAfresh t = true) :
    let out := server.submit (chained (s :: rest)) .iterate
    let alone := server.graph.evaluateAll (s :: rest)
    (out.1.map fun _ => Value.null) = (alone.1.map fun _ => Value.null) ∧
      out.2.graph = alone.2 := by
  have hall := Graph.evaluate_chained s rest hafresh server.graph
  have hsubmit : server.submit (chained (s :: rest)) .iterate
      = server.evaluate (chained (s :: rest)) .iterate := by
    unfold Server.submit
    rw [hfailures, hreplies]
  intro out alone
  rw [show alone = _ from hall.symm, show out = _ from hsubmit]
  unfold Server.evaluate
  rcases server.graph.evaluate (chained (s :: rest)) with ⟨e | items, graph⟩
  · exact ⟨rfl, rfl⟩
  · exact ⟨rfl, rfl⟩

/-- A commit runs what its transaction holds, if the server has nothing
scripted. -/
theorem commit_held {held : List (List Step)}
    (hpending : c.transactions.pending tx = .ok (pendingOf held))
    (hafresh : ∀ s ∈ held, Graph.startsAfresh s = true)
    (hfailures : c.server.failures = []) (hreplies : c.server.replies = []) :
    let alone := c.server.graph.evaluateAll held
    (c.perform (.commit tx)).1 = (alone.1.map fun _ => .null) ∧
      (c.perform (.commit tx)).2.server.graph = alone.2 := by
  cases held with
  | nil =>
      obtain ⟨hanswer, hserver, -⟩ := commit_idle hpending
      exact ⟨hanswer, congrArg Server.graph hserver⟩
  | cons s rest =>
      obtain ⟨hanswer, hserver, -⟩ := commit_submits hpending
      obtain ⟨hout, hleft⟩ := submit_pendingOf (s := s) hfailures hreplies
        fun t ht => hafresh t (List.mem_cons_of_mem s ht)
      exact ⟨hanswer.trans hout, (congrArg Server.graph hserver).trans hleft⟩

/-- A transaction that has been without work has what it has been given
since. -/
theorem pending_of_fresh {settings : Settings} {definitions : List Value}
    {graph : Graph} {sink : Sink} {openable : Bool} {c₀ : Connector}
    (h₀ : ofSettings settings definitions graph sink openable = .ok c₀)
    (before calls : List Call)
    (hfresh : (c₀.runCalls before).transactions.pending tx = .ok none)
    (hopen : ((c₀.runCalls before).runCalls calls).transactions.isOpen tx
      = true) :
    ((c₀.runCalls before).runCalls calls).transactions.pending tx
      = .ok (pendingOf ((c₀.runCalls before).heldBy tx [] calls)) := by
  have hbefore : Tracks (fun tx => c₀.heldBy tx [] before)
      (c₀.runCalls before).transactions :=
    tracks_runCalls (tracks_ofSettings h₀) before
  have hnothing : c₀.heldBy tx [] before = [] := by
    have hnone :=
      (hbefore.pending tx (isOpen_of_pending hfresh)).symm.trans hfresh
    cases hheld : c₀.heldBy tx [] before with
    | nil => rfl
    | cons s rest =>
        rw [hheld] at hnone
        cases hnone
  have hafter := (tracks_runCalls hbefore calls).pending tx hopen
  simp only [hnothing] at hafter
  exact hafter

-- ==================================================================== main

/-- A transaction without work is given changes, and nothing else changes the
graph in the meantime. Its commit then leaves the graph that the traversals of
the changes leave when they are run one by one, in order, each from the start,
up to the first one that fails; and it fails just when one of these does, with
that failure. -/
theorem commit_eq_one_by_one {settings : Settings} {definitions : List Value}
    {graph : Graph} {sink : Sink} {openable : Bool} {c₀ : Connector}
    (h₀ : ofSettings settings definitions graph sink openable = .ok c₀)
    (before calls : List Call) (tx : String)
    (hfresh : (c₀.runCalls before).transactions.pending tx = .ok none)
    (hcalls : (c₀.runCalls before).Undisturbed tx calls)
    (hopen : ((c₀.runCalls before).runCalls calls).transactions.isOpen tx
      = true)
    (hfailures : ((c₀.runCalls before).runCalls calls).server.failures = [])
    (hreplies : ((c₀.runCalls before).runCalls calls).server.replies = []) :
    let c := c₀.runCalls before
    let committed := (c.runCalls calls).perform (.commit tx)
    let alone := c.server.graph.evaluateAll (c.heldBy tx [] calls)
    committed.1 = (alone.1.map fun _ => .null) ∧
        committed.2.server.graph = alone.2 := by
  intro c committed alone
  have hgraph : (c.runCalls calls).server.graph = c.server.graph :=
    graph_of_undisturbed hcalls
  have hafresh : ∀ s ∈ c.heldBy tx [] calls, Graph.startsAfresh s = true :=
    startsAfresh_of_undisturbed hcalls (by simp)
  have hcommit := commit_held (pending_of_fresh h₀ before calls hfresh hopen)
    hafresh hfailures hreplies
  rw [hgraph] at hcommit
  exact hcommit

/-- A creation and the destruction of all that there is, the created element
not counted. -/
def sampleChanges : List Call :=
  [.create (some "Person") (.map [(.text "id", .int 1)]) (under "tx-1"),
    .destroyAll (some "Person") .null (under "tx-1")]

/-- One vertex of the model. -/
def sampleGraph : Graph :=
  (Graph.empty.addVertex (.text "Person") (.int 7) []).1

/-- Committed together, the creation and the destruction leave no vertex, as
they do one by one. -/
theorem commit_sampleChanges :
    ∃ c₀, ofSettings sampleSettings [sampleDefinition] sampleGraph .recording
      true = .ok c₀ ∧
      let c := c₀.runCalls [.begin .null]
      (c.heldBy "tx-1" [] sampleChanges).length = 2 ∧
        ((c.runCalls sampleChanges).perform (.commit "tx-1")).2.server.graph
          = (c.server.graph.evaluateAll (c.heldBy "tx-1" [] sampleChanges)).2 ∧
        ((c.runCalls sampleChanges).perform
            (.commit "tx-1")).2.server.graph.vertices = [] := by
  -- one evaluation decides every hypothesis of the run together
  have hrun : (match ofSettings sampleSettings [sampleDefinition] sampleGraph
      .recording true with
      | .ok c₀ =>
        let c := c₀.runCalls [.begin .null]
        let after := c.runCalls sampleChanges
        (c.transactions.pending "tx-1").toOption.any Option.isNone
          && c.allAccepted "tx-1" sampleChanges &&
          after.transactions.isOpen "tx-1" && after.server.failures.isEmpty &&
          after.server.replies.isEmpty &&
          (c.heldBy "tx-1" [] sampleChanges).length == 2 &&
          (after.perform (.commit "tx-1")).2.server.graph.vertices.isEmpty
      | .error _ => false) = true := by decide +kernel
  cases h₀ : ofSettings sampleSettings [sampleDefinition] sampleGraph
      .recording true with
  | error e => rw [h₀] at hrun; cases hrun
  | ok c₀ =>
      rw [h₀] at hrun
      simp only [Bool.and_eq_true, List.isEmpty_iff, beq_iff_eq] at hrun
      obtain ⟨⟨⟨⟨⟨⟨hfresh, haccepted⟩, hopen⟩, hfailures⟩, hreplies⟩, hlength⟩,
        hempty⟩ := hrun
      have hnone : (c₀.runCalls [.begin .null]).transactions.pending "tx-1"
          = .ok none := by
        cases hp : (c₀.runCalls [.begin .null]).transactions.pending
            "tx-1" with
        | error e => rw [hp] at hfresh; cases hfresh
        | ok work =>
            rw [hp] at hfresh
            cases work with
            | none => rfl
            | some steps => cases hfresh
      refine ⟨c₀, rfl, hlength, ?_, hempty⟩
      exact (commit_eq_one_by_one h₀ [.begin .null] sampleChanges "tx-1" hnone
        (undisturbed_of_allAccepted haccepted) hopen hfailures hreplies).2

end Connector

end GraphMapper

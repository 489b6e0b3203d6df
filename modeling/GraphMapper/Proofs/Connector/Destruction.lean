/-
Destructions that wait for their commit.

A destruction under a transaction counts what it asks for in the graph as it
is, and goes behind the other changes of the transaction unless the count is
zero. It is run when all of these have been, on the graph that they leave, so a
destruction that has been accepted leaves nothing that it asks for, whatever
the changes in front of it have created (`commit_destroys`). One that has
counted nothing is not held at all, even if something that it asks for has been
created in the transaction: that is still there after the commit
(`destroys_no_creation`).

The proof looks at the commit from behind: the destruction is the last
traversal that the transaction holds, so the graph after the commit is one that
its drop has left. That needs nothing of the traversals before it but that they
leave a sound graph.

Chain: `Connector.Commit` for the commit, `Filter.Dropping` for the drop,
`Connector.Proper` for what may be in a transaction.
-/
import GraphMapper.Proofs.Connector.Commit
import GraphMapper.Proofs.Connector.Proper
import GraphMapper.Proofs.Filter.Dropping

namespace GraphMapper

-- ======================================================== one after the other

namespace Graph

variable {g g' : Graph} {s : List Step} {rest : List (List Step)}

/-- If all traversals succeed, so does the last one, on the graph that the
others leave. -/
private theorem evaluateAll_concat
    (h : g.evaluateAll (rest ++ [s]) = (.ok (), g')) :
    ∃ out, (g.evaluateAll rest).2.evaluate s = (.ok out, g') := by
  induction rest generalizing g with
  | nil =>
      rw [List.nil_append, evaluateAll] at h
      show ∃ out, g.evaluate s = (.ok out, g')
      rcases hgo : g.evaluate s with ⟨e | out, g₁⟩
      · rw [hgo] at h
        cases h
      · rw [hgo] at h
        obtain rfl : g₁ = g' := congrArg Prod.snd h
        exact ⟨out, rfl⟩
  | cons t rest ih =>
      rw [List.cons_append, evaluateAll] at h
      rw [evaluateAll]
      rcases hgo : g.evaluate t with ⟨e | out, g₁⟩
      · rw [hgo] at h
        cases h
      · rw [hgo] at h
        exact ih h

/-- Traversals one after the other leave a sound graph. -/
theorem Sound.evaluateAll (hg : Sound [] g)
    (hproper : ∀ s ∈ rest, Value.stepsAreProper s = true) :
    Sound [] (g.evaluateAll rest).2 := by
  induction rest generalizing g with
  | nil => exact hg
  | cons t rest ih =>
      have hfirst := hg.evaluate (hproper t List.mem_cons_self)
      unfold Graph.evaluateAll
      rcases hgo : g.evaluate t with ⟨e | out, g₁⟩
      · rw [hgo] at hfirst
        exact hfirst
      · rw [hgo] at hfirst
        exact ih hfirst fun s hs => hproper s (List.mem_cons_of_mem _ hs)

end Graph

/-- The filter of a call that destroys elements of the model, and the name that
it gives the model. -/
def Call.destroys? (m : Model) : Call → Option (Option String × Value)
  | .destroyAll name filter _ => some (name, filter)
  | .destroyById name id _ => some (name, Query.byId m id)
  | _ => none

namespace Connector

open Transactions

variable {tx : String} {c : Connector} {calls : List Call} {last : Call}
  {m : Model} {name : Option String} {w : Value}

-- ====================================================== the last of the calls

private theorem heldBy_concat (held : List (List Step)) :
    c.heldBy tx held (calls ++ [last])
      = (c.runCalls calls).heldAfter tx (c.heldBy tx held calls) last := by
  induction calls generalizing c held with
  | nil => rfl
  | cons call calls ih => exact ih _

private theorem undisturbed_concat (hcalls : c.Undisturbed tx calls)
    (hlast : ∀ work, last.work? = some work → work.replaces = false)
    (haccepts : (c.runCalls calls).accepts tx last = true) :
    c.Undisturbed tx (calls ++ [last]) := by
  induction calls generalizing c with
  | nil =>
      have haccepts : c.accepts tx last = true := haccepts
      refine ⟨?_, trivial⟩
      rw [if_pos haccepts]
      exact hlast
  | cons call calls ih => exact ⟨hcalls.1, ih hcalls.2 haccepts⟩

/-- A destruction asks for the elements of its filter to be dropped. -/
private theorem work_of_destroys (h : last.destroys? m = some (name, w)) :
    ∃ work,
    last.work? = some work ∧ work.replaces = false ∧ ∀ r, r.get name = .ok m →
      work.steps r = Build.traversalFrom [] (Query.drop m w) := by
  cases last
  case destroyAll model filter options =>
    obtain ⟨rfl, rfl⟩ := Prod.mk.inj (Option.some.inj h)
    refine ⟨_, rfl, rfl, fun r hr => ?_⟩
    simp only [Work.change, hr, bind, Except.bind]
  case destroyById model id options =>
    obtain ⟨rfl, rfl⟩ := Prod.mk.inj (Option.some.inj h)
    refine ⟨_, rfl, rfl, fun r hr => ?_⟩
    simp only [Work.change, hr, bind, Except.bind]
  all_goals exact absurd h (by simp [Call.destroys?])

/-- If it is accepted, this is the last that the transaction holds. -/
private theorem held_destruction (hlast : last.destroys? m = some (name, w))
    (hmodel : c.registry.get name = .ok m)
    (haccepts : c.accepts tx last = true) (held : List (List Step)) :
    ∃ s, Build.traversalFrom [] (Query.drop m w) = .ok s ∧
      c.heldAfter tx held last = held ++ [s] := by
  obtain ⟨work, hwork, hreplaces, hsteps⟩ := work_of_destroys hlast
  rcases perform_transactions c last with ⟨hno, -⟩
    | ⟨work', -, s, hwork', hs, -, -⟩
  · rw [hno tx] at haccepts
    cases haccepts
  · obtain rfl : work = work' := Option.some.inj (hwork.symm.trans hwork')
    refine ⟨s, (hsteps c.registry hmodel).symm.trans hs, ?_⟩
    rw [heldAfter_of_accepts haccepts hwork hs, Work.addTo, hreplaces,
      if_neg Bool.false_ne_true]

/-- Only an open transaction is committed. -/
private theorem isOpen_of_commit {answer : Value}
    (h : (c.perform (.commit tx)).1 = .ok answer) :
    c.transactions.isOpen tx = true := by
  have hact : (Act.observed "commit" none (Act.takePending tx >>= submitWork)
      c).1 = .ok answer := by
    rw [← commit_eq]
    exact h
  rw [Act.observed_fst] at hact
  cases hcommit : c.transactions.commit tx with
  | error e =>
      have htaken : Act.takePending tx c = (.error e, c) := by
        simp only [Act.takePending, Act.run, hcommit]
      rw [Act.bind_apply_error htaken] at hact
      cases hact
  | ok taken => exact isOpen_of_pending (commit_eq_ok hcommit).1

/-- A commit submits its work once, so it has met with no failure if it has
succeeded. -/
private theorem failures_of_commit {held : List (List Step)} {answer : Value}
    (hheld : held ≠ [])
    (hpending : c.transactions.pending tx = .ok (pendingOf held))
    (h : (c.perform (.commit tx)).1 = .ok answer) :
    c.server.failures = [] := by
  cases held with
  | nil => exact absurd rfl hheld
  | cons s rest =>
      rw [(commit_submits hpending).1] at h
      unfold Server.submit at h
      split at h
      · cases h
      · assumption
      · assumption

/-- What a destruction asks for is a value that an application can make, if the
call is. -/
private theorem isProper_of_destroys (hm : m.IsProper)
    (hlast : last.destroys? m = some (name, w)) (h : last.isProper = true) :
    w.isProper = true := by
  cases last
  case destroyAll model filter options =>
    obtain ⟨-, rfl⟩ := Prod.mk.inj (Option.some.inj hlast)
    exact h
  case destroyById model id options =>
    obtain ⟨-, rfl⟩ := Prod.mk.inj (Option.some.inj hlast)
    exact Query.isProper_byId hm h
  all_goals exact absurd hlast (by simp [Call.destroys?])

-- ==================================================================== main

/-- A destruction that has been accepted has taken effect when its transaction
has been committed.

The transaction was without work, and has been given changes that were
accepted, the last of which is the destruction; nothing else has changed the
graph in the meantime. Definitions and calls are made of values that
applications can make, and the server runs what is committed. If the commit
succeeds, no element of the model that the filter asks for is left, however it
came to be there. -/
theorem commit_destroys {settings : Settings} {definitions : List Value}
    {graph : Graph} {sink : Sink} {openable : Bool} {c₀ : Connector}
    (h₀ : ofSettings settings definitions graph sink openable = .ok c₀)
    (before calls : List Call) (tx : String)
    (hdefinitions : ∀ d ∈ definitions, d.isProper = true)
    (hproper : ∀ call ∈ before ++ (calls ++ [last]), call.isProper = true)
    (hgraph : (c₀.runCalls before).server.graph.Reachable)
    (hfresh : (c₀.runCalls before).transactions.pending tx = .ok none)
    (hcalls : (c₀.runCalls before).Undisturbed tx calls)
    (hlast : last.destroys? m = some (name, w))
    (hmodel : ((c₀.runCalls before).runCalls calls).registry.get name = .ok m)
    (haccepts : ((c₀.runCalls before).runCalls calls).accepts tx last = true)
    (hreplies : ((c₀.runCalls before).runCalls
      (calls ++ [last])).server.replies = []) {answer : Value}
      {after : Connector}
    (hcommit : ((c₀.runCalls before).runCalls (calls ++ [last])).perform
      (.commit tx) = (.ok answer, after)) :
    ∀ e ∈ Filter.stored m after.server.graph,
      Filter.asksFor m w (after.server.graph.element e.2) = false := by
  have hregistry : (c₀.runCalls before).registry.IsProper :=
    isProper_registry_runCalls (isProper_registry_ofSettings hdefinitions h₀)
      fun call hcall => hproper call (List.mem_append_left _ hcall)
  have hproper : ∀ call ∈ calls ++ [last], call.isProper = true :=
    fun call hcall => hproper call (List.mem_append_right _ hcall)
  have hopen := isOpen_of_commit (congrArg Prod.fst hcommit)
  have hpending :
      ((c₀.runCalls before).runCalls (calls ++ [last])).transactions.pending tx
        = .ok (pendingOf
          ((c₀.runCalls before).heldBy tx [] (calls ++ [last]))) :=
    pending_of_fresh h₀ before (calls ++ [last]) hfresh hopen
  generalize c₀.runCalls before = c at *
  obtain ⟨work, hwork, hreplaces, -⟩ := work_of_destroys hlast
  have hundisturbed : c.Undisturbed tx (calls ++ [last]) :=
    undisturbed_concat hcalls (fun work' hwork' =>
      Option.some.inj (hwork.symm.trans hwork') ▸ hreplaces) haccepts
  have hafresh : ∀ s ∈ c.heldBy tx [] (calls ++ [last]),
      Graph.startsAfresh s = true :=
    startsAfresh_of_undisturbed hundisturbed (by simp)
  have hheldProper : ∀ s ∈ c.heldBy tx [] (calls ++ [last]),
      Value.stepsAreProper s = true :=
    isProper_heldBy hregistry hproper (by simp)
  obtain ⟨s, hsteps, hheld⟩ :=
    held_destruction hlast hmodel haccepts (c.heldBy tx [] calls)
  rw [heldBy_concat, hheld] at hpending hafresh hheldProper
  -- the commit runs what is held, one by one, on the graph that there was at
  -- first
  have hfailures :=
    failures_of_commit (by simp) hpending (congrArg Prod.fst hcommit)
  obtain ⟨hanswer, hleft⟩ := commit_held hpending hafresh hfailures hreplies
  rw [hcommit, graph_of_undisturbed hundisturbed] at hanswer hleft
  have hall : c.server.graph.evaluateAll (c.heldBy tx [] calls ++ [s])
      = (.ok (), after.server.graph) := by
    refine Prod.ext ?_ hleft.symm
    cases hall :
        (c.server.graph.evaluateAll (c.heldBy tx [] calls ++ [s])).1 with
    | ok u => rfl
    | error e =>
        rw [hall] at hanswer
        cases hanswer
  -- the destruction is the last of it
  obtain ⟨out, hgo⟩ := Graph.evaluateAll_concat hall
  have hsound :
      Graph.Sound [] (c.server.graph.evaluateAll (c.heldBy tx [] calls)).2 :=
    hgraph.sound.evaluateAll fun t ht =>
      hheldProper t (List.mem_append_left _ ht)
  have hm : m.IsProper := (isProper_registry_runCalls hregistry
    fun call hcall => hproper call (List.mem_append_left _ hcall)).get hmodel
  have hw : w.isProper = true :=
    isProper_of_destroys hm hlast
      (hproper last (List.mem_append_right _ List.mem_cons_self))
  exact Filter.evaluate_drop hsound hw hsteps hgo

-- ================================================================ instances

/-- The elements of the model that a filter asks for. -/
def asked (m : Model) (w : Value) (g : Graph) : List Handle :=
  ((Filter.stored m g).map (·.2)).filter fun h =>
    Filter.asksFor m w (g.element h)

def sampleCreation : Call :=
  .create (some "Person") (.map [(.text "id", .int 1)]) (under "tx-1")

def sampleDestruction : Call :=
  .destroyAll (some "Person") .null (under "tx-1")

/-- A person is created, and all persons are destroyed with the one that there
was before. -/
theorem commit_destroys_sample :
    ∃ c₀, ofSettings sampleSettings [sampleDefinition] sampleGraph .recording
      true = .ok c₀ ∧
      let c := c₀.runCalls [.begin .null]
      ∃ m answer after,
      (c.runCalls [sampleCreation]).registry.get (some "Person") = .ok m ∧
        (c.runCalls ([sampleCreation] ++ [sampleDestruction])).perform
            (.commit "tx-1")
          = (.ok answer, after) ∧
        ∀ e ∈ Filter.stored m after.server.graph,
          Filter.asksFor m .null (after.server.graph.element e.2) = false := by
  -- one evaluation decides every hypothesis of the run together
  have hrun : (match ofSettings sampleSettings [sampleDefinition] sampleGraph
      .recording true with
      | .ok c₀ =>
        let c := c₀.runCalls [.begin .null]
        let after := c.runCalls ([sampleCreation] ++ [sampleDestruction])
        (c.transactions.pending "tx-1").toOption.any Option.isNone
          && c.allAccepted "tx-1" [sampleCreation]
          && (c.runCalls [sampleCreation]).accepts "tx-1" sampleDestruction
          && ((c.runCalls [sampleCreation]).registry.get (some "Person")).isOk
          && after.server.replies.isEmpty
          && (after.perform (.commit "tx-1")).1.isOk
      | .error _ => false) = true := by decide +kernel
  cases h₀ : ofSettings sampleSettings [sampleDefinition] sampleGraph
      .recording true with
  | error e => rw [h₀] at hrun; cases hrun
  | ok c₀ =>
      rw [h₀] at hrun
      simp only [Bool.and_eq_true, List.isEmpty_iff] at hrun
      obtain ⟨⟨⟨⟨⟨hfresh, haccepted⟩, haccepts⟩, hmodel⟩, hreplies⟩, hok⟩ :=
        hrun
      have hnone : (c₀.runCalls [.begin .null]).transactions.pending "tx-1"
          = .ok none := by
        cases hp : (c₀.runCalls [.begin .null]).transactions.pending
            "tx-1" with
        | error e => rw [hp] at hfresh; cases hfresh
        | ok work =>
            rw [hp] at hfresh
            cases work with
            | none => rfl
            | some steps => cases hfresh
      have hgraph : (c₀.runCalls [.begin .null]).server.graph.Reachable := by
        rw [show (c₀.runCalls [.begin .null]).server.graph
          = c₀.server.graph from rfl, graph_ofSettings h₀]
        exact .addVertex .empty rfl rfl _ Entries.isReflexive_nil
      obtain ⟨m, hm⟩ := exists_of_isOk hmodel
      obtain ⟨answer, after, hcommit⟩ := exists_ok_of_isOk hok
      refine ⟨c₀, rfl, m, answer, after, hm, hcommit, ?_⟩
      exact commit_destroys h₀ [.begin .null] [sampleCreation] "tx-1"
        (by decide) (by decide) hgraph hnone
        (undisturbed_of_allAccepted haccepted)
        (show sampleDestruction.destroys? m
          = some (some "Person", .null) from rfl)
        hm haccepts hreplies hcommit

/-- All calls succeed, and a person is left that the destruction asks for. -/
theorem destroys_no_creation :
    ∃ c₀, ofSettings sampleSettings [sampleDefinition] .empty .recording true
      = .ok c₀ ∧
      let c := c₀.runCalls [.begin .null]
      let created := c.perform sampleCreation
      let destroyed := created.2.perform sampleDestruction
      let committed := destroyed.2.perform (.commit "tx-1")
      created.1.isOk = true ∧ destroyed.1.isOk = true ∧
      committed.1.isOk = true ∧
        (c.registry.get (some "Person")).toOption.map
          (asked · .null committed.2.server.graph)
          = some [0] := by
  have hrun : (match ofSettings sampleSettings [sampleDefinition] .empty
      .recording true with
      | .ok c₀ =>
        let c := c₀.runCalls [.begin .null]
        let created := c.perform sampleCreation
        let destroyed := created.2.perform sampleDestruction
        let committed := destroyed.2.perform (.commit "tx-1")
        created.1.isOk && destroyed.1.isOk && committed.1.isOk &&
          (c.registry.get (some "Person")).toOption.map
            (asked · .null committed.2.server.graph)
            == some [0]
      | .error _ => false) = true := by decide +kernel
  cases h₀ : ofSettings sampleSettings [sampleDefinition] .empty
      .recording true with
  | error e => rw [h₀] at hrun; cases hrun
  | ok c₀ =>
      rw [h₀] at hrun
      simp only [Bool.and_eq_true, beq_iff_eq] at hrun
      obtain ⟨⟨⟨hcreated, hdestroyed⟩, hcommitted⟩, hleft⟩ := hrun
      exact ⟨c₀, rfl, hcreated, hdestroyed, hcommitted, hleft⟩

end Connector

end GraphMapper

/-
Changes under a transaction that is not open.

A change finds its source before it builds anything, and under a transaction
the source is the pending work of that. If the transaction is not open there is
none, so the change is refused, and nothing has happened but that this has been
observed (`Act.refused_changing`). What an operation looks at before its change
may fail earlier: the id of an element that is replaced, and the count of
elements that are to be dropped. That count is taken outside of transactions,
from the graph as it is; if nothing is counted there is nothing to change, and
the transaction is not looked at.

A count that returns has submitted once, because a server with no failure
prepared that fails on a traversal fails on it each time
(`Act.submitWithRetry_first`). So it has taken no time and ended no transaction
(`Connector.OnlyRead`).

Main statement: `ended_refuses`.
-/
import GraphMapper.Proofs.Connector.ById
import GraphMapper.Proofs.Connector.Changes

namespace GraphMapper

variable {α β : Type} {c c' c'' : Connector} {model : Option String}
  {m : Model} {tx : String} {o : Options} {options : Value} {e : Failure}

namespace Connector

open Transactions (notFound)

-- =============================================================== only reading

/-- The server has been read from at most. -/
structure OnlyRead (c c' : Connector) : Prop where
  registry : c'.registry = c.registry
  transactions : c'.transactions = c.transactions
  clock : c'.clock = c.clock
  graph : c'.server.graph = c.server.graph
  submitted : ∃ reads, c'.submitted = c.submitted ++ reads ∧
    ∀ read ∈ reads, Graph.readsOnly read.2 = true

theorem OnlyRead.trans (h : OnlyRead c c') (h' : OnlyRead c' c'') :
    OnlyRead c c'' := by
  obtain ⟨first, hfirst, hreads⟩ := h.submitted
  obtain ⟨later, hlater, hreads'⟩ := h'.submitted
  refine ⟨h'.registry.trans h.registry, h'.transactions.trans h.transactions,
    h'.clock.trans h.clock, h'.graph.trans h.graph, first ++ later, ?_,
    fun read hread => ?_⟩
  · rw [hlater, hfirst, List.append_assoc]
  · rcases List.mem_append.mp hread with hread | hread
    · exact hreads read hread
    · exact hreads' read hread

/-- What has been observed is no submission. -/
private theorem Unmoved.onlyRead (h : Unmoved c e c') : OnlyRead c c' := by
  obtain ⟨notes, rfl, hnotes⟩ := h
  refine ⟨rfl, rfl, rfl, rfl, [], ?_, fun _ h => (nomatch h)⟩
  have hnone : notes.filterMap Effect.submission? = [] := by
    refine List.filterMap_eq_nil_iff.mpr fun n hn => ?_
    obtain ⟨operation, named, rfl⟩ := hnotes n hn
    rfl
  show (c.effects ++ notes).filterMap Effect.submission? = c.submitted ++ []
  rw [List.filterMap_append, hnone]
  rfl

/-- A submission of steps that only read. -/
private theorem onlyRead_submit {steps : List Step}
    (hsteps : Graph.readsOnly steps = true) (mode : Mode) (c : Connector) :
    OnlyRead c (Connector.host.submit steps mode c).2 := by
  refine ⟨rfl, rfl, rfl, Act.sameGraph_submitOnce hsteps mode c,
    [(mode, steps)], ?_, ?_⟩
  · exact Act.submitted_submit c
  · intro read hread
    rw [List.mem_singleton.mp hread]
    exact hsteps

theorem OnlyRead.observed {act : Act α} (h : OnlyRead c (act c).2)
    (operation : String) (model : Option String) :
    OnlyRead c (Act.observed operation model act c).2 := by
  rcases Act.observed_snd operation model act c with hsame | ⟨ok, code, hnoted⟩
  · rw [hsame]
    exact h
  · rw [hnoted]
    refine h.trans ⟨rfl, rfl, rfl, rfl, [], ?_, fun _ h => (nomatch h)⟩
    show ((act c).2.effects ++ [_]).filterMap Effect.submission?
        = (act c).2.submitted ++ []
    rw [List.filterMap_append]
    rfl

/-- Nothing is due if nothing was. -/
theorem OnlyRead.settle (h : OnlyRead c c') (hsettled : c.settle = c) :
    c'.settle = c' := by
  have hsame : c.transactions.expire c.clock = c.transactions :=
    congrArg Connector.transactions hsettled
  have hsame' : c'.transactions.expire c'.clock = c'.transactions := by
    rw [h.transactions, h.clock, hsame]
  unfold Connector.settle
  rw [hsame']

end Connector

open Connector

namespace Act

open Transactions (notFound)

-- =================================================================== counting

/-- If a reading returns at last and no failure has been prepared, it has
returned at once. -/
theorem submitWithRetry_first {found : Option Model} {steps : List Step}
    {mode : Mode} {v : Value}
    (hfound : ∀ m, found = some m → ∃ name, c.registry.get (some name) = .ok m)
    (hfailures : c.server.failures = [])
    (hsteps : Graph.readsOnly steps = true)
    (h : (Connector.host.submitWithRetry found steps mode c).1 = .ok v) :
    Connector.host.submitWithRetry found steps mode c
      = Connector.host.submit steps mode c := by
  cases found with
  | none => rfl
  | some m =>
      change (Connector.host.submitAgain m steps mode m.retry.attempts c).1
          = .ok v at h
      change Connector.host.submitAgain m steps mode m.retry.attempts c = _
      rcases Connector.host.submitAgain_cases m steps mode
          m.retry.attempts c with
        ⟨v', c', hfirst, hgo⟩ | ⟨e, c', hfirst, -⟩
      · rw [hgo, hfirst]
      -- a failed first submission cannot end in a value: with no failures left
      -- the server repeats its answer
      · obtain ⟨name, hname⟩ := hfound m rfl
        have hfailed : (c.server.submit steps mode).1 = .error e :=
          congrArg Prod.fst hfirst
        cases hreplies : c.server.replies with
        | cons reply replies =>
            unfold Server.submit at hfailed
            rw [hfailures, hreplies] at hfailed
            cases hfailed
        | nil =>
            obtain ⟨items, hitems, hraw⟩ :=
              ((ensures_submitAgain lasting_facing
                (ensures_submitOnce hsteps mode) m m.retry.attempts) c
                  ⟨hname, rfl, hreplies⟩).2 v h
            unfold Server.submit at hfailed
            rw [hfailures, hreplies] at hfailed
            simp only [Server.evaluate, hitems, hraw] at hfailed
            cases hfailed

/-- The model of a submission is looked up at most. -/
private theorem modelFor_eq_ok {found : Option Model}
    (h : modelFor model c = (.ok found, c')) :
    c' = c ∧ ∀ m, found = some m → ∃ name,
      c.registry.get (some name) = .ok m := by
  refine ⟨(still_modelFor model).eq_ok h, ?_⟩
  unfold modelFor at h
  cases hnamed : named model with
  | none =>
      rw [hnamed] at h
      obtain rfl := Except.ok.inj (Prod.mk.inj h).1
      exact fun m hm => nomatch hm
  | some name =>
      rw [hnamed] at h
      obtain ⟨m', c₁, hask, hrest⟩ := fst_bind_eq_ok (congrArg Prod.fst h)
      have hget : c.registry.get (some name) = .ok m' := (Prod.mk.inj hask).1
      obtain rfl := Except.ok.inj hrest
      exact fun m hm => ⟨name, Option.some.inj hm ▸ hget⟩

private theorem onlyRead_execute {steps : List Step} {mode : Mode} {v : Value}
    (ho : o.joined = none) (hfailures : c.server.failures = [])
    (hsteps : Graph.readsOnly steps = true)
    (h : (execute model steps o mode c).1 = .ok v) :
    OnlyRead c (execute model steps o mode c).2 := by
  rw [execute_alone ho] at h ⊢
  obtain ⟨found, c₁, hmodel, hrest⟩ := fst_bind_eq_ok h
  obtain ⟨rfl, hfound⟩ := modelFor_eq_ok hmodel
  rw [bind_apply_ok hmodel]
  obtain ⟨raw, c₂, hraw, -⟩ := fst_bind_eq_ok hrest
  rw [bind_apply_ok hraw]
  show OnlyRead c₁ c₂
  have hfirst :=
    submitWithRetry_first hfound hfailures hsteps (congrArg Prod.fst hraw)
  have hsubmit : Connector.host.submit steps mode c₁ = (.ok raw, c₂) :=
    hfirst.symm.trans hraw
  have hread := onlyRead_submit hsteps mode c₁
  rw [hsubmit] at hread
  exact hread

/-- A count that returns has read, and has done so without delay. -/
private theorem onlyRead_count {filter : Value} {n : Int}
    (hfailures : c.server.failures = [])
    (h : (count model filter c).1 = .ok n) :
    OnlyRead c (count model filter c).2 := by
  unfold count at h ⊢
  rw [observed_fst] at h
  refine OnlyRead.observed ?_ _ _
  obtain ⟨steps, c₁, hbuild, hrest⟩ := fst_bind_eq_ok h
  obtain rfl : c₁ = c := (still_build (still_pure []) model _).eq_ok hbuild
  rw [bind_apply_ok hbuild]
  obtain ⟨v, c₂, hexecute, -⟩ := fst_bind_eq_ok hrest
  rw [bind_apply_ok hexecute]
  obtain ⟨m, hsteps⟩ := traversalFrom_of_build hbuild
  have hread := onlyRead_execute rfl hfailures (Query.readsOnly_count hsteps)
    (congrArg Prod.fst hexecute)
  rw [hexecute] at hread
  exact hread

-- =================================================================== refusals

private theorem pending_ended {r : Transactions (List Step)}
    (hended : r.isOpen tx = false) :
    r.pending tx = .error (notFound tx) := by
  unfold Transactions.pending Transactions.find?
  rw [hended]
  rfl

/-- Without a source nothing is built. -/
private theorem refused_mutate (ho : o.joined = some tx)
    (hended : c.transactions.isOpen tx = false) (model : Option String)
    (operation : Model → Build Unit) (mode : Mode) :
    Refused (.ok ()) (notFound tx) (mutate model operation o mode) c := by
  refine refused_of_error (bind_apply_error (bind_apply_error ?_))
  rw [source_joined ho, pending_ended hended]
  rfl

theorem refused_changing (ho : Options.ofValue options = .ok o)
    (hj : o.joined = some tx) (hended : c.transactions.isOpen tx = false)
    (operation : String) (model : Option String) (builder : Model → Build Unit)
    (mode : Mode) (finish : Options → Value → Act Value) :
    Refused (.ok ()) (notFound tx)
      (changing operation model builder mode options finish) c := by
  obtain ⟨c', hgo, hunmoved⟩ :=
    ((refused_mutate hj hended model builder mode).bind (finish o)).observed
      operation model
  refine ⟨c', ?_, hunmoved⟩
  unfold changing
  rw [bind_apply_ok (show check (Options.ofValue options) c
      = (.ok o, c) by rw [check, ho])]
  exact hgo

/-- The act comes to nothing: having read at most, it fails for want of the
transaction, or has found that there is nothing to do. -/
def Declined (tx : String) (found : Option Int) (act : Act Value)
    (c : Connector) : Prop :=
  ∃ c', act c = (if found = some 0 then .ok (counted (.int 0))
    else .error (notFound tx), c') ∧ OnlyRead c c'

private theorem declined_changing {finish : Options → Value → Act Value}
    (ho : Options.ofValue options = .ok o) (hj : o.joined = some tx)
    (hended : c.transactions.isOpen tx = false) (operation : String)
    (model : Option String) (builder : Model → Build Unit) (mode : Mode) :
    Declined tx none
      (changing operation model builder mode options finish) c := by
  obtain ⟨c', hgo, hunmoved⟩ :=
    refused_changing ho hj hended operation model builder mode finish
  exact ⟨c', hgo, hunmoved.onlyRead⟩

private theorem declined_replaceById (ho : Options.ofValue options = .ok o)
    (hj : o.joined = some tx) (hended : c.transactions.isOpen tx = false)
    {id : Value} (hid : requireId id = .ok ()) (record : Value) :
    Declined tx none (replaceById model id record options) c := by
  rw [replaceById_eq]
  unfold Declined
  rw [bind_apply_ok (show check (requireId id) c
      = (.ok (), c) by rw [check, hid])]
  exact declined_changing ho hj hended _ _ _ _

/-- What has been counted is not dropped. -/
private theorem declined_destroyAll (ho : Options.ofValue options = .ok o)
    (hj : o.joined = some tx) (hended : c.transactions.isOpen tx = false)
    (hfailures : c.server.failures = []) {filter : Value} {n : Int}
    (hcount : (count model filter c).1 = .ok n) :
    Declined tx (some n) (destroyAll model filter options) c := by
  have hread := onlyRead_count hfailures hcount
  rcases hgo : count model filter c with ⟨out, c₁⟩
  rw [hgo] at hcount hread
  obtain rfl : out = .ok n := hcount
  unfold Declined
  rw [destroyAll_eq,
    bind_apply_ok (show check (Options.ofValue options) c
      = (.ok o, c) by rw [check, ho]),
    bind_apply_ok hgo]
  by_cases hn : n = 0
  · refine ⟨c₁, ?_, hread⟩
    rw [if_pos hn, if_pos (congrArg some hn)]
    rfl
  · have hended₁ : c₁.transactions.isOpen tx = false := by
      rw [hread.transactions, hended]
    obtain ⟨c', hgo', hunmoved⟩ :=
      ((refused_mutate hj hended₁ model (Query.drop · filter) .iterate).bind
        fun _ => pure (counted (.int n))).observed "destroy_all" model
    refine ⟨c', ?_, hread.trans hunmoved.onlyRead⟩
    rw [if_neg hn, if_neg (fun h => hn (Option.some.inj h))]
    exact hgo'

end Act

namespace Work

/-- Options that name a transaction can be read. -/
private theorem options_of_joins {w : Work} (h : w.joins tx = true) :
    ∃ o, Options.ofValue w.options = .ok o ∧ o.joined = some tx := by
  unfold joins at h
  cases ho : Options.ofValue w.options with
  | error e =>
      rw [ho] at h
      cases h
  | ok o =>
      rw [ho] at h
      exact ⟨o, rfl, beq_iff_eq.mp h⟩

end Work

namespace Call

/-- What a change looks at before its transaction: that there is an id, or how
many elements there are to be dropped. -/
def preliminary (c : Connector) : Call → Checked (Option Int)
  | .save model record _ => do
    let m ← c.registry.get model
    let es ← record.entries
    Act.requireId (Entries.get m.idField es)
    .ok none
  | .replaceById _ id _ _ => do
    Act.requireId id
    .ok none
  | .destroyAll model filter _ => (Act.count model filter c).1.map some
  | .destroyById model id _ => do
    let m ← c.registry.get model
    Act.requireId id
    (Act.count model (Query.byId m id) c).1.map some
  | _ => .ok none

end Call

namespace Act

variable {call : Call} {w : Work} {found : Option Int}

private theorem map_some_eq_ok {r : Checked Int} (h : r.map some = .ok found) :
    ∃ n, r = .ok n ∧ found = some n := by
  cases r with
  | error e => cases h
  | ok n => exact ⟨n, rfl, (Except.ok.inj h).symm⟩

/-- Every change but a traversal of the caller's own. -/
private theorem declined_act (hwork : call.work? = some w)
    (hchange : w.replaces = false) (hjoins : w.joins tx = true)
    (hended : c.transactions.isOpen tx = false)
    (hfailures : c.server.failures = [])
    (hvalid : call.preliminary c = .ok found) :
    Declined tx found call.act c := by
  -- a call that is work for the transaction fails where it would read the
  -- ended transaction, after its own preliminary checks
  obtain ⟨o, ho, hj⟩ := Work.options_of_joins hjoins
  cases call
  case create model record options =>
    obtain rfl := Option.some.inj hwork
    obtain rfl := Except.ok.inj hvalid
    rw [show (Call.create model record options).act
      = create model record options from rfl, create_eq]
    exact declined_changing ho hj hended _ _ _ _
  case save model record options =>
    obtain rfl := Option.some.inj hwork
    obtain ⟨m, hmodel, hvalid⟩ := bind_eq_ok hvalid
    obtain ⟨es, hes, hvalid⟩ := bind_eq_ok hvalid
    obtain ⟨_, hid, hvalid⟩ := bind_eq_ok hvalid
    obtain rfl := Except.ok.inj hvalid
    have hsave : save model record options c
        = replaceById model (Entries.get m.idField es) record options c := by
      unfold save
      rw [bind_apply_ok (show ask _ c = (.ok m, c) by rw [ask, hmodel]),
        bind_apply_ok (show check record.entries c
          = (.ok es, c) by rw [check, hes])]
    have hdeclined : Declined tx none
        (replaceById model (Entries.get m.idField es) record options) c :=
      declined_replaceById ho hj hended hid record
    obtain ⟨c', hgo, hread⟩ := hdeclined
    exact ⟨c', hsave.trans hgo, hread⟩
  case replaceById model id record options =>
    obtain rfl := Option.some.inj hwork
    obtain ⟨_, hid, hvalid⟩ := bind_eq_ok hvalid
    obtain rfl := Except.ok.inj hvalid
    exact declined_replaceById ho hj hended hid record
  case updateAll model filter record options =>
    obtain rfl := Option.some.inj hwork
    obtain rfl := Except.ok.inj hvalid
    rw [show (Call.updateAll model filter record options).act
      = updateAll model filter record options from rfl, updateAll_eq]
    exact declined_changing ho hj hended _ _ _ _
  case destroyAll model filter options =>
    obtain rfl := Option.some.inj hwork
    obtain ⟨n, hcount, rfl⟩ := map_some_eq_ok hvalid
    exact declined_destroyAll ho hj hended hfailures hcount
  case destroyById model id options =>
    obtain rfl := Option.some.inj hwork
    obtain ⟨m, hmodel, hvalid⟩ := bind_eq_ok hvalid
    obtain ⟨_, hid, hvalid⟩ := bind_eq_ok hvalid
    obtain ⟨n, hcount, rfl⟩ := map_some_eq_ok hvalid
    have hdestroy : destroyById model id options c
        = destroyAll model (Query.byId m id) options c := by
      unfold destroyById
      rw [bind_apply_ok (show ask _ c = (.ok m, c) by rw [ask, hmodel]),
        bind_apply_ok (show check (requireId id) c
          = (.ok (), c) by rw [check, hid])]
    obtain ⟨c', hgo, hread⟩ :=
      declined_destroyAll ho hj hended hfailures hcount
    exact ⟨c', hdestroy.trans hgo, hread⟩
  case execute steps options mode =>
    obtain rfl := Option.some.inj hwork
    cases hchange
  case engine model steps options mode =>
    obtain rfl := Option.some.inj hwork
    cases hchange
  -- the remaining calls are no work for any transaction
  all_goals cases hwork

end Act

-- ==================================================================== main

namespace Connector

/-- A change under a transaction that is not open, for whatever reason, is
refused for want of the transaction; only a destruction that counts nothing is
not, and answers with its count. Either way nothing is submitted but that
count, and the graph and all transactions are as they were. What the change
looks at before its transaction is taken to be in order, and the server not to
have been told to fail. -/
theorem ended_refuses {settings : Settings} {definitions : List Value}
    {graph : Graph} {sink : Sink} {openable : Bool} {c₀ : Connector}
    (hmade : ofSettings settings definitions graph sink openable = .ok c₀)
    (before : List Call) {call : Call} {w : Work} {tx : String}
    {found : Option Int} (hwork : call.work? = some w)
    (hchange : w.replaces = false) (hjoins : w.joins tx = true)
    (hended : (c₀.runCalls before).transactions.isOpen tx = false)
    (hfailures : (c₀.runCalls before).server.failures = [])
    (hvalid : call.preliminary (c₀.runCalls before) = .ok found) :
    ((c₀.runCalls before).perform call).1
      = (if found = some 0 then .ok (Act.counted (.int 0))
        else .error (Transactions.notFound tx)) ∧
    OnlyRead (c₀.runCalls before) ((c₀.runCalls before).perform call).2 := by
  have hsettled := settle_runCalls (settle_ofSettings hmade) before
  generalize c₀.runCalls before = c at hended hfailures hvalid hsettled ⊢
  obtain ⟨c', hgo, hread⟩ :=
    Act.declined_act hwork hchange hjoins hended hfailures hvalid
  have hperform : c.perform call = ((call.act c).1, (call.act c).2.settle) :=
    rfl
  rw [hperform, hgo]
  refine ⟨rfl, ?_⟩
  show OnlyRead c c'.settle
  rw [hread.settle hsettled]
  exact hread

/-- What a check of a result finds. -/
private theorem eq_ok_of_any {r : Checked (Option Int)} {n : Int}
    (h : r.toOption.any (· == some n) = true) : r = .ok (some n) := by
  cases r with
  | error e => cases h
  | ok found => rw [beq_iff_eq.mp h]

/-- The transaction has been committed, and the person that it created is not
dropped under it. -/
theorem ended_refuses_committed :
    ∃ c₀, ofSettings sampleSettings [sampleDefinition] .empty .recording true
      = .ok c₀ ∧
      let c := c₀.runCalls [.begin .null, sampleCreation, .commit "tx-1"]
      c.transactions.isOpen "tx-1" = false ∧ c.server.failures = [] ∧
        sampleDestruction.preliminary c = .ok (some 1) ∧
        (c.perform sampleDestruction).1
          = .error (Transactions.notFound "tx-1") ∧
        OnlyRead c (c.perform sampleDestruction).2 := by
  have hrun : (match ofSettings sampleSettings [sampleDefinition] .empty
      .recording true with
      | .ok c₀ =>
        let c := c₀.runCalls [.begin .null, sampleCreation, .commit "tx-1"]
        !c.transactions.isOpen "tx-1" && c.server.failures.isEmpty &&
          (sampleDestruction.preliminary c).toOption.any (· == some 1)
      | .error _ => false) = true := by decide +kernel
  cases h₀ : ofSettings sampleSettings [sampleDefinition] .empty
      .recording true with
  | error e => rw [h₀] at hrun; cases hrun
  | ok c₀ =>
      rw [h₀] at hrun
      simp only [Bool.and_eq_true, Bool.not_eq_true', List.isEmpty_iff] at hrun
      obtain ⟨⟨hended, hfailures⟩, hfound⟩ := hrun
      have hvalid := eq_ok_of_any hfound
      have hwork : sampleDestruction.work? = some _ := rfl
      obtain ⟨hrefused, hread⟩ :=
        ended_refuses h₀ _ hwork rfl (by decide) hended hfailures hvalid
      exact ⟨c₀, rfl, hended, hfailures, hvalid, hrefused, hread⟩

/-- There is no such transaction and no person, and a destruction of all
persons under it counts them and returns. -/
theorem ended_destroys_nothing :
    ∃ c₀, ofSettings sampleSettings [sampleDefinition] .empty .recording true
      = .ok c₀ ∧ c₀.transactions.isOpen "tx-1" = false ∧
      c₀.server.failures = [] ∧
        (c₀.perform sampleDestruction).1 = .ok (Act.counted (.int 0)) := by
  have hrun : (match ofSettings sampleSettings [sampleDefinition] .empty
      .recording true with
      | .ok c₀ =>
        !c₀.transactions.isOpen "tx-1" && c₀.server.failures.isEmpty &&
          (sampleDestruction.preliminary c₀).toOption.any (· == some 0)
      | .error _ => false) = true := by decide +kernel
  cases h₀ : ofSettings sampleSettings [sampleDefinition] .empty
      .recording true with
  | error e => rw [h₀] at hrun; cases hrun
  | ok c₀ =>
      rw [h₀] at hrun
      simp only [Bool.and_eq_true, Bool.not_eq_true', List.isEmpty_iff] at hrun
      obtain ⟨⟨hended, hfailures⟩, hfound⟩ := hrun
      have hwork : sampleDestruction.work? = some _ := rfl
      obtain ⟨c', hgo, -⟩ :=
        Act.declined_act hwork rfl (by decide) hended hfailures
          (eq_ok_of_any hfound)
      exact ⟨c₀, rfl, hended, hfailures, congrArg Prod.fst hgo⟩

end Connector

end GraphMapper

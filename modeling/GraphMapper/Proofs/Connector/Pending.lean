/-
The pending work of every open transaction, after any run of calls.

Of all that has been done under a transaction, what counts are the changes that
were accepted, and of these only those after the last traversal of the caller's
own, which counts itself. The pending work is the traversals of these, each as
it is built from nothing, with a `fold` between each two of them; it is nothing
when there are none. `Connector.heldBy` keeps these traversals along a run.

The proof is an invariant of the registry (`Tracks`). One call preserves it
(`tracks_perform`), and so does every run (`tracks_runCalls`).

# What a step does to the registry

A call gives its work to one transaction, or it gives none; it opens one, or it
ends some (`perform_transactions`). Transactions do not see each other, and an
id is never handed out again, so what a transaction holds is told by the calls
that name it.

Main statement: `pending_after_run`.

Chain: `Connector.Work` for single calls; `Connector.Commit` and
`Connector.Proper` use what a transaction holds.
-/
import GraphMapper.Proofs.Connector.Work

namespace GraphMapper

/-- The pending work of a transaction that holds traversals. -/
def pendingOf : List (List Step) → Option (List Step)
  | [] => none
  | s :: rest => some (chained (s :: rest))

/-- What goes behind the pending work is one more of the traversals that are
held. -/
private theorem pendingOf_addTo (w : Work) (held : List (List Step))
    (s : List Step) :
    pendingOf (w.addTo held s) = some (w.behind s (pendingOf held)) := by
  cases held with
  | nil =>
      cases hr : w.replaces <;>
        simp [Work.addTo, Work.behind, pendingOf, hr, chained_singleton]
  | cons first rest =>
      cases hr : w.replaces with
      | true =>
          simp [Work.addTo, Work.behind, pendingOf, hr, chained_singleton]
      | false =>
          have hchain := chained_concat (List.cons_ne_nil first rest) s
          simpa [Work.addTo, Work.behind, pendingOf, hr] using hchain

/-- The submissions that a call makes, in their order. -/
def Connector.submissions (c : Connector) (call : Call) :
    List (Mode × List Step) :=
  (effectsSince c (c.perform call).2).filterMap Effect.submission?

namespace Transactions

variable {r r' : Transactions (List Step)} {held : String → List (List Step)}

-- =============================================================== invariant

/-- Every open transaction has the pending work of the traversals that it
holds. Only ids that have been handed out hold any. -/
structure Tracks (held : String → List (List Step))
    (r : Transactions (List Step)) : Prop where
  accounted : Accounted r
  issued : ∀ id, held id ≠ [] → IsIssued r.issued id
  pending : ∀ id, r.isOpen id = true → r.pending id = .ok (pendingOf (held id))

/-- A registry without transactions holds nothing. -/
private theorem tracks_empty (timeout : Int) :
    Tracks (fun _ => []) ⟨timeout, 0, [], []⟩ where
  accounted :=
    { records := fun t ht => nomatch ht
      openIds := fun id hid => absurd hid (by simp [isOpen]) }
  issued := fun id h => absurd rfl h
  pending := fun id hid => absurd hid (by simp [isOpen])

theorem Tracks.narrows (h : Tracks held r) (hn : r.Narrows r') :
    Tracks held r' where
  accounted := h.accounted.narrows hn
  issued := fun id hid => hn.issued ▸ h.issued id hid
  pending := fun id hid =>
    (hn.pending id hid).trans (h.pending id (hn.wasOpen id hid))

/-- A new transaction holds nothing, since its id is new. -/
theorem Tracks.begin (h : Tracks held r) (now : Int) (own : Value) :
    Tracks held (r.begin now own).2 where
  accounted := accounted_begin h.accounted now own
  issued := fun id hid => (h.issued id hid).mono (by
    unfold Transactions.begin
    simp only
    split <;> exact Nat.le_succ _)
  pending := by
    intro id hid
    rcases pending_begin h.accounted now own hid with ⟨hnew, hpending⟩
      | ⟨hopen, hpending⟩
    · have hheld : held id = [] := by
        by_cases hne : held id = []
        · exact hne
        · exact absurd (h.issued id hne) hnew
      rw [hpending, hheld]
      rfl
    · rw [hpending]
      exact h.pending id hopen

/-- Steps that are stored are held by their transaction, and by no other. -/
theorem Tracks.stores {w : Work} {s : List Step} {tx : String}
    (h : Tracks held r) (hs : Stores w s tx r r') :
    Tracks (fun id => if id = tx then w.addTo (held tx) s
      else held id) r' := by
  obtain ⟨found, work, stored, hfound, hwork, hstore, hstored⟩ := hs
  have hmid := h.narrows hfound
  obtain ⟨hopen, hupdate⟩ := store_eq_ok hstore
  have hpending := hmid.pending tx hopen
  refine Tracks.narrows (r := stored) ⟨hmid.accounted.store hstore,
    fun id hid => ?_, fun id hid => ?_⟩ hstored
  · have hissued : stored.issued = found.issued := by rw [hupdate]; rfl
    rw [hissued]
    by_cases hne : id = tx
    · rw [hne]
      exact hmid.accounted.openIds tx hopen
    · rw [if_neg hne] at hid
      exact hmid.issued id hid
  · by_cases hne : id = tx
    · rw [if_pos hne, hne, pendingOf_addTo, ← hwork _ hpending]
      exact pending_store_self hstore hpending
    · rw [if_neg hne, pending_store_of_ne hstore hne]
      exact hmid.pending id (by rw [hupdate] at hid; exact hid)

end Transactions

namespace Connector

open Transactions

variable {held : String → List (List Step)} {c : Connector}

-- ================================================================ one call

/-- Options name one transaction at most. -/
private theorem joins_unique {w : Work} {tx tx' : String}
    (h : w.joins tx = true) (h' : w.joins tx' = true) : tx' = tx := by
  unfold Work.joins at h h'
  split at h
  · next o ho =>
    rw [ho] at h'
    have heq : some tx' = some tx :=
      (beq_iff_eq.mp h').symm.trans (beq_iff_eq.mp h)
    exact Option.some.inj heq
  · cases h

theorem heldAfter_of_not_accepts {tx : String} {call : Call}
    (h : c.accepts tx call = false) (own : List (List Step)) :
    c.heldAfter tx own call = own := by
  unfold heldAfter
  rw [h, if_neg Bool.false_ne_true]

theorem heldAfter_of_accepts {tx : String} {call : Call} {w : Work}
    {s : List Step} (h : c.accepts tx call = true) (hw : call.work? = some w)
    (hs : w.steps c.registry = .ok s) (own : List (List Step)) :
    c.heldAfter tx own call = w.addTo own s := by
  unfold heldAfter
  rw [h, if_pos rfl, hw]
  simp only [hs]

/-- What becomes of transactions in a call: one that accepts its work has it
stored, and otherwise transactions at most end, or one is opened. -/
theorem perform_transactions (c : Connector) (call : Call) :
    ((∀ tx, c.accepts tx call = false) ∧
      (c.transactions.Narrows (c.perform call).2.transactions ∨
        ∃ own, (c.transactions.begin c.clock own).2.Narrows
          (c.perform call).2.transactions)) ∨
    ∃ w tx s, call.work? = some w ∧ w.steps c.registry = .ok s ∧
      (∀ tx', c.accepts tx' call = true ↔ tx' = tx) ∧
      Stores w s tx c.transactions (c.perform call).2.transactions := by
  -- ending a call only narrows what is open, so it is enough to follow the
  -- operation itself
  have hsettle : (call.act c).2.transactions.Narrows
      (c.perform call).2.transactions :=
    (settled_settle (call.act c).2).2
  have hfst : (c.perform call).1 = (call.act c).1 := rfl
  cases hwork : call.work? with
  | none =>
      have hnot : ∀ tx, c.accepts tx call = false := by
        intro tx
        simp only [accepts, hwork]
      refine .inl ⟨hnot, ?_⟩
      cases call
      case begin timeout => exact .inr ⟨timeout, hsettle⟩
      case register d =>
          have hsame : (Call.act (.register d) c).2.transactions
              = c.transactions := by
            simp only [Call.act, Act.register, Act.run]
            split <;> rfl
          rw [hsame] at hsettle
          exact .inl hsettle
      all_goals
          exact .inl ((Act.settled_quiet hwork (by simp) (by simp) c).2.trans
            hsettle)
  | some w =>
      -- work either adds nothing or goes to the one transaction it joins
      rcases Act.contributes_act hwork c with ⟨hn, hout⟩
        | ⟨tx, s, answer, hj, hs, ho, hno, hst⟩
      · refine .inl ⟨fun tx => ?_, .inl (hn.trans hsettle)⟩
        simp only [accepts, hwork, hfst]
        cases ho : (call.act c).1 with
        | error e => rfl
        | ok answer => rcases hout answer ho with h | h <;> simp [h]
      · refine .inr ⟨w, tx, s, rfl, hs, fun tx' => ?_, hst.narrows hsettle⟩
        simp only [accepts, hwork, hfst, ho, hno, Bool.not_false,
          Bool.and_true]
        exact ⟨fun h => joins_unique hj h, fun h => h ▸ hj⟩

/-- One call preserves the invariant. -/
theorem tracks_perform (h : Tracks held c.transactions) (call : Call) :
    Tracks (fun tx => c.heldAfter tx (held tx) call)
      (c.perform call).2.transactions := by
  rcases perform_transactions c call with ⟨hnot, hn⟩
    | ⟨w, tx, s, hw, hs, haccepts, hstores⟩
  · simp only [heldAfter_of_not_accepts (hnot _)]
    rcases hn with hn | ⟨own, hn⟩
    · exact h.narrows hn
    · exact (h.begin c.clock own).narrows hn
  · have hheld : (fun id => c.heldAfter id (held id) call)
        = fun id => if id = tx then w.addTo (held tx) s else held id := by
      funext id
      by_cases hid : id = tx
      · rw [if_pos hid, hid,
          heldAfter_of_accepts ((haccepts tx).mpr rfl) hw hs]
      · rw [if_neg hid]
        refine heldAfter_of_not_accepts ?_ _
        exact Bool.eq_false_iff.mpr fun ht => hid ((haccepts id).mp ht)
    rw [hheld]
    exact h.stores hstores

-- ================================================================== a run

/-- A run preserves the invariant: what transactions hold is kept along. -/
theorem tracks_runCalls (h : Tracks held c.transactions) (calls : List Call) :
    Tracks (fun tx => c.heldBy tx (held tx) calls)
      (c.runCalls calls).transactions := by
  induction calls generalizing c held with
  | nil => exact h
  | cons call calls ih => exact ih (tracks_perform h call)

/-- A connector starts with no transactions. -/
theorem tracks_ofSettings {settings : Settings} {definitions : List Value}
    {graph : Graph} {sink : Sink} {openable : Bool}
    (h : ofSettings settings definitions graph sink openable = .ok c) :
    Tracks (fun _ => []) c.transactions := by
  unfold ofSettings at h
  obtain ⟨registry, -, h⟩ := bind_eq_ok h
  obtain ⟨transactions, htx, h⟩ := bind_eq_ok h
  have hempty : ∃ timeout, transactions = ⟨timeout, 0, [], []⟩ := by
    unfold Transactions.ofTimeout at htx
    split at htx
    · cases htx
    · cases htx
    · obtain ⟨timeout, -, htx⟩ := bind_eq_ok htx
      exact ⟨timeout, (Except.ok.inj htx).symm⟩
  obtain ⟨timeout, rfl⟩ := hempty
  rw [← Except.ok.inj h]
  exact tracks_empty timeout

/-- A connector starts with the graph that it is given. -/
theorem graph_ofSettings {settings : Settings} {definitions : List Value}
    {graph : Graph} {sink : Sink} {openable : Bool} {c₀ : Connector}
    (h₀ : ofSettings settings definitions graph sink openable = .ok c₀) :
    c₀.server.graph = graph := by
  unfold ofSettings at h₀
  obtain ⟨registry, -, h₀⟩ := bind_eq_ok h₀
  obtain ⟨transactions, -, h₀⟩ := bind_eq_ok h₀
  rw [← Except.ok.inj h₀]
  rfl

-- ================================================================= commits

/-- An observation is no submission. -/
private theorem submissions_observed (call : Call) {operation : String}
    {model : Option String} {act : Act Value}
    (hcall : call.act = Act.observed operation model act) {new : List Effect}
    (heffects : (act c).2.effects = c.effects ++ new) :
    c.submissions call = new.filterMap Effect.submission? := by
  have hafter : (c.perform call).2.effects
      = (Act.observed operation model act c).2.effects := by
    rw [← hcall]
    rfl
  unfold submissions effectsSince
  rw [hafter]
  rcases Act.observed_snd operation model act c with h | ⟨ok, code, h⟩
  · rw [h, heffects, List.drop_left]
  · rw [h]
    simp only [note, heffects, List.append_assoc, List.drop_left,
      List.filterMap_append]
    simp [Effect.submission?]

/-- What a commit does with the work that it has taken. -/
def submitWork : Option (List Step) → Act Value
  | none => pure .null
  | some steps => do
    let _ ← Act.submitOnce steps .iterate
    pure .null

theorem commit_eq (tx : String) :
    Act.commit tx
      = Act.observed "commit" none (Act.takePending tx >>= submitWork) := by
  unfold Act.commit
  refine congrArg (Act.observed "commit" none) (bind_congr fun work => ?_)
  cases work <;> rfl

/-- The transaction is over before its work is submitted. -/
private theorem taken_apply {tx : String} {work : Option (List Step)}
    (h : c.transactions.pending tx = .ok work) :
    (Act.takePending tx >>= submitWork) c
      = submitWork work
        { c with transactions := c.transactions.finish tx .committed } := by
  refine Act.bind_apply_ok ?_
  simp only [Act.takePending, Act.run, commit_of_pending h]

/-- A commit does to the server what comes of its work, and answers
accordingly. -/
private theorem commit_apply {tx : String} {work : Option (List Step)}
    (h : c.transactions.pending tx = .ok work) :
    let out := submitWork work
      { c with transactions := c.transactions.finish tx .committed }
    (c.perform (.commit tx)).1 = out.1 ∧ (c.perform (.commit tx)).2.server
      = out.2.server ∧ ∀ new, out.2.effects = c.effects ++ new →
        c.submissions (.commit tx) = new.filterMap Effect.submission? := by
  refine ⟨?_, ?_, fun new hnew => ?_⟩
  · show (Act.commit tx c).1 = _
    rw [commit_eq, Act.observed_fst, taken_apply h]
  · show (Act.commit tx c).2.server = _
    rw [commit_eq, Act.observed_server, taken_apply h]
  · refine submissions_observed (.commit tx) (commit_eq tx) ?_
    rw [taken_apply h]
    exact hnew

/-- A commit without pending work does nothing to the server. -/
theorem commit_idle {tx : String} (h : c.transactions.pending tx = .ok none) :
    (c.perform (.commit tx)).1 = .ok .null ∧ (c.perform (.commit tx)).2.server
      = c.server ∧ c.submissions (.commit tx) = [] := by
  obtain ⟨hanswer, hserver, hsubmissions⟩ := commit_apply h
  exact ⟨hanswer, hserver, hsubmissions [] (List.append_nil _).symm⟩

/-- A commit with pending work submits that work, once, and fails if the
submission does. -/
theorem commit_submits {tx : String} {steps : List Step}
    (h : c.transactions.pending tx = .ok (some steps)) :
    (c.perform (.commit tx)).1
      = (c.server.submit steps .iterate).1.map (fun _ => .null) ∧
      (c.perform (.commit tx)).2.server = (c.server.submit steps .iterate).2 ∧
      c.submissions (.commit tx) = [(.iterate, steps)] := by
  obtain ⟨hanswer, hserver, hsubmissions⟩ := commit_apply h
  have hout : submitWork (some steps)
      { c with transactions := c.transactions.finish tx .committed }
        = ((c.server.submit steps .iterate).1.map fun _ => .null,
        { c with
          transactions := c.transactions.finish tx .committed
          server := (c.server.submit steps .iterate).2
          effects := c.effects ++ [.submitted .iterate steps] }) := by
    rw [show submitWork (some steps)
      = Act.submitOnce steps .iterate >>= fun _ => pure .null from rfl,
      Act.bind_apply]
    simp only [Act.submitOnce, Act.run, host, note]
    rcases c.server.submit steps .iterate with ⟨e | v, server⟩ <;> rfl
  rw [hout] at hanswer hserver hsubmissions
  exact ⟨hanswer, hserver, hsubmissions _ rfl⟩

-- ==================================================================== main

/-- After any run of calls, the pending work of an open transaction is the
traversals that it holds, with a `fold` between each two of them. A call adds
to them just when it is accepted under the transaction, and leaves the pending
work otherwise; a commit makes one submission, of that work, or none when there
is none. -/
theorem pending_after_run {settings : Settings} {definitions : List Value}
    {graph : Graph} {sink : Sink} {openable : Bool} {c₀ : Connector}
    (h₀ : ofSettings settings definitions graph sink openable = .ok c₀)
    (calls : List Call) (tx : String)
    (hopen : (c₀.runCalls calls).transactions.isOpen tx = true) :
    let c := c₀.runCalls calls
    let held := c₀.heldBy tx [] calls
    c.transactions.pending tx = .ok (pendingOf held) ∧
      (∀ call, c.accepts tx call = true → ∃ w s, call.work? = some w ∧
        w.steps c.registry = .ok s ∧
        c.heldAfter tx held call = w.addTo held s) ∧
      (∀ call, c.accepts tx call = false →
        (c.perform call).2.transactions.isOpen tx = true →
        (c.perform call).2.transactions.pending tx
          = c.transactions.pending tx) ∧
      c.submissions (.commit tx)
          = (pendingOf held).toList.map (Mode.iterate, ·) := by
  intro c held
  -- the invariant of the run; the rest reads it at the last state
  have htracks : Tracks (fun tx => c₀.heldBy tx [] calls) c.transactions :=
    tracks_runCalls (tracks_ofSettings h₀) calls
  have hpending : c.transactions.pending tx = .ok (pendingOf held) :=
    htracks.pending tx hopen
  refine ⟨hpending, fun call haccepts => ?_, fun call hnot hstill => ?_, ?_⟩
  · rcases perform_transactions c call with ⟨hno, -⟩
      | ⟨w, tx', s, hw, hs, hiff, -⟩
    · rw [hno tx] at haccepts
      cases haccepts
    · exact ⟨w, s, hw, hs, heldAfter_of_accepts haccepts hw hs held⟩
  · rw [(tracks_perform htracks call).pending tx hstill,
      heldAfter_of_not_accepts hnot, hpending]
  · cases hwork : pendingOf held with
    | none =>
        rw [hwork] at hpending
        exact (commit_idle hpending).2.2
    | some steps =>
        rw [hwork] at hpending
        exact (commit_submits hpending).2.2

/-- Settings that say no more than they have to. -/
def sampleSettings : Settings :=
  ⟨.null, .text "localhost", 8182, true, .null, .null, [], .text "g", 5000⟩

/-- A definition that says no more than a name. -/
def sampleDefinition : Value := .map [(.text "name", .text "Person")]

/-- Options that name a transaction. -/
def under (tx : String) : Value := .map [(.text "transaction", .text tx)]

/-- Two transactions: one gets a creation, a change that fails and an update,
the other a traversal of the caller's own. -/
def sampleCalls : List Call :=
  [.begin .null, .begin .null,
    .create (some "Person") (.map [(.text "id", .int 1)]) (under "tx-1"),
    .create (some "Animal") (.map []) (under "tx-1"),
    .execute [.call .vertices []] (under "tx-2") (.text "iterate"),
    .updateAll (some "Person") .null (.map []) (under "tx-1")]

/-- The creation and the update are held, and nothing else. -/
theorem pending_after_sampleCalls :
    ∃ c₀, ofSettings sampleSettings [sampleDefinition] .empty .recording true
      = .ok c₀ ∧ (c₀.runCalls sampleCalls).transactions.isOpen "tx-1" = true ∧
      (c₀.heldBy "tx-1" [] sampleCalls).length = 2 ∧
      (c₀.runCalls sampleCalls).transactions.pending "tx-1"
        = .ok (pendingOf (c₀.heldBy "tx-1" [] sampleCalls)) := by
  have hrun : (match ofSettings sampleSettings [sampleDefinition] .empty
      .recording true with
      | .ok c₀ => (c₀.runCalls sampleCalls).transactions.isOpen "tx-1"
          && (c₀.heldBy "tx-1" [] sampleCalls).length == 2
      | .error _ => false) = true := by decide +kernel
  cases h₀ : ofSettings sampleSettings [sampleDefinition] .empty
      .recording true with
  | error e => rw [h₀] at hrun; cases hrun
  | ok c₀ =>
      rw [h₀] at hrun
      obtain ⟨hopen, hlength⟩ := Bool.and_eq_true_iff.mp hrun
      exact ⟨c₀, rfl, hopen, beq_iff_eq.mp hlength,
        (pending_after_run h₀ sampleCalls "tx-1" hopen).1⟩

end Connector

end GraphMapper

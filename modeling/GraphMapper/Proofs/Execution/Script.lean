/-
Retry accounting.

What an execution does is told for every sequence of answers to its submissions
and of attempts to open the connection again (`Script`). A host that follows
such a script writes a journal of all that is asked of it, and the journal of
an execution has a closed form: one block of entries for each round, and the
last submission behind them (`Script.journal`). The number of rounds is the
number of failures in a row that may pass, or the model's budget if that is
less (`Script.retries`).

Two things can end an execution between submissions: a connection that cannot
be opened, and a delay that has no floating-point form, for which no wait can
be asked.

The engine of a connector is the same with another host (`execute_eq`). Its
server takes a submission off its script, or else runs the traversal on the
graph, so the graph afterwards is what as many runs as there were submissions
beyond the script make of it (`served_execute`).

Main statement: `execute_accounts`.
-/
import GraphMapper.Proofs.Connector.Frame
import GraphMapper.Proofs.Execution.Retry

namespace GraphMapper

-- ============================================================== executions

/-- What comes of the raw result of a submission: nothing, the result itself,
or its normal form. -/
def Options.finish (o : Options) (model : Option Model) (mode : Mode)
    (raw : Value) :
    Checked Value :=
  if mode = .iterate then .ok .null
  else if o.parse then Result.present ((model.map Model.isEdge).getD false) raw
  else .ok raw

/-- An execution outside of transactions, on any host. -/
def Host.execute {σ : Type} (host : Host σ) (model : Option Model)
    (o : Options) (mode : Mode) (steps : List Step) (s : σ) :
    Checked Value × σ :=
  match host.submitWithRetry model steps mode s with
  | (.ok raw, s) => (o.finish model mode raw, s)
  | (.error e, s) => (.error e, s)

/-- An execution for a model is a submission with the model's budget. -/
private theorem Host.execute_some {σ : Type} {host : Host σ} {m : Model}
    {o : Options}
    {mode : Mode} {steps : List Step} {s s' : σ} {out : Checked Value}
    (h : host.submitAgain m steps mode m.retry.attempts s = (out, s')) :
    host.execute (some m) o mode steps s
      = (out >>= o.finish (some m) mode, s') := by
  unfold execute submitWithRetry
  simp only [h]
  cases out <;> rfl

/-- A connector's engine is an execution on its own host. -/
theorem execute_eq {c : Connector} {model : Option String} {m : Option Model}
    {o : Options} (hm : Act.modelFor model c = (.ok m, c))
    (ho : o.joined = none) (steps : List Step) (mode : Mode) :
    Act.execute model steps o mode c
      = Connector.host.execute m o mode steps c := by
  unfold Act.execute
  rw [ho]
  show (Act.modelFor model >>= _) c = _
  rw [Act.bind_apply_ok hm, Act.bind_apply]
  unfold Host.execute Act.run Options.finish
  rcases Connector.host.submitWithRetry m steps mode c with ⟨e | raw, c'⟩
  · rfl
  · dsimp only
    split
    · rfl
    · split <;> rfl

-- ================================================================= scripts

/-- The answers to submissions, by their number, and what comes of attempts to
open the connection again, by theirs. -/
structure Script where
  answers : Nat → Checked Value
  reconnects : Nat → Checked Unit

namespace Script

variable (script : Script) (m : Model) (d : Binary64) (mode : Mode)
  (steps : List Step)

def isSubmission : Effect → Bool
  | .submitted _ _ => true
  | _ => false

def isReconnection : Effect → Bool
  | .reconnected => true
  | _ => false

/-- A host that answers by the script and writes a journal. -/
def host : Host (List Effect) where
  submit steps mode journal :=
    (script.answers (journal.countP isSubmission),
      journal ++ [.submitted mode steps])
  reconnect journal :=
    (script.reconnects (journal.countP isReconnection),
      journal ++ [.reconnected])
  countRetry label journal := journal ++ [.counted label]
  sleep seconds journal := journal ++ [.slept seconds]

/-- The submission fails so that it may be repeated. -/
def isTransient (i : Nat) : Bool :=
  match script.answers i with
  | .error e => e.isTransient
  | .ok _ => false

/-- The submission fails so that the connection has to be opened again. -/
def asksReconnect (i : Nat) : Bool :=
  match script.answers i with
  | .error e => e.asksReconnect
  | .ok _ => false

/-- What comes of opening the connection again after a submission, if that has
to be done. -/
def reconnection (i : Nat) : Checked Unit :=
  if script.asksReconnect i then
    script.reconnects ((List.range i).countP script.asksReconnect)
  else .ok ()

/-- The failures in a row from the first submission on that may pass, as far as
a budget goes. -/
def retries (budget : Nat) : Nat :=
  ((List.range budget).takeWhile script.isTransient).length

/-- The entries of a round in the journal. -/
def block (i : Nat) : List Effect :=
  .submitted mode steps :: (if script.asksReconnect i then [.reconnected]
    else []) ++ [.counted m.label, .slept d]

/-- The journal of the first rounds. -/
def journal (n : Nat) : List Effect :=
  (List.range n).flatMap (script.block m d mode steps)

variable {script m d mode steps}

private theorem journal_succ (n : Nat) : script.journal m d mode steps (n + 1)
    = script.journal m d mode steps n ++ script.block m d mode steps n := by
  unfold journal
  rw [List.range_succ, List.flatMap_append, List.flatMap_singleton]

/-- Each round has one submission. -/
private theorem submissions_journal (n : Nat) :
    (script.journal m d mode steps n).countP isSubmission = n := by
  induction n with
  | zero => rfl
  | succ n ih =>
      have hblock : (script.block m d mode steps n).countP isSubmission
          = 1 := by
        unfold block
        split <;> rfl
      rw [journal_succ, List.countP_append, ih, hblock]

private theorem reconnections_journal (n : Nat) :
    (script.journal m d mode steps n).countP isReconnection
      = (List.range n).countP script.asksReconnect := by
  induction n with
  | zero => rfl
  | succ n ih =>
      have hblock : (script.block m d mode steps n).countP isReconnection
          = [n].countP script.asksReconnect := by
        unfold block
        rw [List.countP_singleton]
        split <;> rfl
      rw [journal_succ, List.countP_append, ih, hblock, List.range_succ,
        List.countP_append]

/-- The submission after some rounds. -/
private theorem submit_journal (n : Nat) :
    script.host.submit steps mode (script.journal m d mode steps n)
      = (script.answers n,
        script.journal m d mode steps n ++ [.submitted mode steps]) := by
  unfold host
  simp only [submissions_journal]

/-- Opening the connection again, as far as that is asked for. -/
private theorem reopen_journal {n : Nat} {e : Failure}
    (h : script.answers n = .error e) :
    script.host.reopen e
      (script.journal m d mode steps n ++ [.submitted mode steps])
        = (script.reconnection n,
          script.journal m d mode steps n ++ [.submitted mode steps] ++
          if script.asksReconnect n then [.reconnected] else []) := by
  have hasks : script.asksReconnect n = e.asksReconnect := by
    rw [asksReconnect, h]
  unfold Host.reopen reconnection
  rw [hasks]
  cases e.asksReconnect with
  | false =>
      rw [if_neg Bool.false_ne_true, if_neg Bool.false_ne_true,
        if_neg Bool.false_ne_true, List.append_nil]
  | true =>
      have hcount : (script.journal m d mode steps n
          ++ [Effect.submitted mode steps]).countP isReconnection
            = (List.range n).countP script.asksReconnect := by
        rw [List.countP_append, reconnections_journal]
        rfl
      unfold host
      simp only [if_true, hcount]

/-- A round writes its block. -/
private theorem round_journal {n : Nat} (h : script.isTransient n = true) :
    script.host.round m steps mode d (script.journal m d mode steps n)
      = script.journal m d mode steps (n + 1) := by
  cases hanswer : script.answers n with
  | ok v => simp [isTransient, hanswer] at h
  | error e =>
      unfold Host.round
      rw [submit_journal, hanswer]
      simp only [reopen_journal hanswer]
      rw [journal_succ]
      simp [host, block, List.append_assoc]

/-- So rounds write a journal. -/
private theorem iterate_round (n : Nat)
    (h : ∀ i < n, script.isTransient i = true) :
    (script.host.round m steps mode d)^[n] []
      = script.journal m d mode steps n := by
  induction n with
  | zero => rfl
  | succ n ih =>
      rw [Function.iterate_succ_apply', ih fun i hi =>
        h i (Nat.lt_succ_of_lt hi), round_journal (h n (Nat.lt_succ_self n))]

/-- The submission after some rounds is repeated if it may be and the
connection can be opened. -/
private theorem repeats_journal {n : Nat} (h : script.isTransient n = true)
    (hopen : script.reconnection n = .ok ()) :
    script.host.Repeats steps mode (script.journal m d mode steps n) := by
  cases hanswer : script.answers n with
  | ok v => simp [isTransient, hanswer] at h
  | error e =>
      have he : e.isTransient = true := by simpa [isTransient, hanswer] using h
      have hsubmit : script.host.submit steps mode
          (script.journal m d mode steps n) = _ :=
        submit_journal n
      have hreopen :
          script.host.reopen e (script.journal m d mode steps n ++ _) = _ :=
        reopen_journal hanswer
      rw [hanswer] at hsubmit
      rw [hopen] at hreopen
      exact ⟨e, _, _, hsubmit, he, hreopen⟩

/-- The rounds are within the budget, each submission in them may be repeated,
and the one behind them may not be or is one too many. -/
private theorem retries_spec (budget : Nat) : script.retries budget ≤ budget ∧
    (∀ i < script.retries budget, script.isTransient i = true) ∧
      (script.retries budget = budget ∨
        script.isTransient (script.retries budget) = false) := by
  unfold retries
  induction budget with
  | zero => exact ⟨Nat.le_refl _, fun i hi => (nomatch hi), .inl rfl⟩
  | succ budget ih =>
      obtain ⟨hle, hbefore, hafter⟩ := ih
      rw [List.range_succ, List.takeWhile_append]
      split
      · next hall =>
        rw [List.length_range] at hall
        rw [hall] at hbefore
        cases hlast : script.isTransient budget with
        | false =>
            simp only [List.takeWhile_cons, hlast, List.length_append,
              List.length_range]
            exact ⟨Nat.le_succ _, hbefore, .inr hlast⟩
        | true =>
            simp only [List.takeWhile_cons, hlast, List.length_append,
              List.length_range]
            refine ⟨Nat.le_refl _, fun i hi => ?_, .inl rfl⟩
            rcases Nat.lt_succ_iff_lt_or_eq.mp hi with hi | rfl
            · exact hbefore i hi
            · exact hlast
      · next hnot =>
        rw [List.length_range] at hnot
        exact ⟨Nat.le_succ_of_le hle, hbefore, .inr (hafter.resolve_left hnot)⟩

/-- An execution goes through its rounds as long as connections can be
opened. -/
private theorem submitAgain_journal {i : Nat}
    (hi : i ≤ script.retries m.retry.attempts)
    (hopen : ∀ j < i, script.reconnection j = .ok ())
    (hd : i = 0 ∨ Host.waitSeconds m = .ok d) :
    script.host.submitAgain m steps mode m.retry.attempts []
      = script.host.submitAgain m steps mode (m.retry.attempts - i)
          (script.journal m d mode steps i) := by
  obtain ⟨hle, hbefore, -⟩ := script.retries_spec m.retry.attempts
  rcases hd with rfl | hd
  · rfl
  · have hrounds : ∀ j ≤ i, (script.host.round m steps mode d)^[j] []
        = script.journal m d mode steps j := by
      intro j hj
      exact iterate_round j fun l hl => hbefore l (by omega)
    have hrepeats : ∀ j < i, script.host.Repeats steps mode
        ((script.host.round m steps mode d)^[j] []) := by
      intro j hj
      rw [hrounds j (Nat.le_of_lt hj)]
      exact repeats_journal (hbefore j (Nat.lt_of_lt_of_le hj hi)) (hopen j hj)
    rw [Host.submitAgain_iterate hd i (Nat.le_trans hi hle) hrepeats,
      hrounds i (Nat.le_refl i)]

/-- The result of the execution if a submission is the last one. -/
def result (script : Script) (m : Model) (o : Options) (mode : Mode)
    (i : Nat) : Checked Value :=
  (script.answers i).mapError Failure.raised >>= o.finish (some m) mode

variable {o : Options}

/-- An execution that nothing stops between submissions. -/
private theorem execute_of_open
    (hd : script.retries m.retry.attempts = 0 ∨ Host.waitSeconds m = .ok d)
    (hopen : ∀ i < script.retries m.retry.attempts,
      script.reconnection i = .ok ()) :
    script.host.execute (some m) o mode steps []
      = (script.result m o mode (script.retries m.retry.attempts),
          script.journal m d mode steps (script.retries m.retry.attempts) ++
            [.submitted mode steps]) := by
  obtain ⟨hle, -, hafter⟩ := script.retries_spec m.retry.attempts
  have hgo : script.host.submitAgain m steps mode m.retry.attempts [] = _ :=
    submitAgain_journal (Nat.le_refl _) hopen hd
  refine Host.execute_some (hgo.trans ?_)
  have hlast : m.retry.attempts - script.retries m.retry.attempts = 0 ∨ ∀ e,
      (script.host.submit steps mode
          (script.journal m d mode steps (script.retries m.retry.attempts))).1
            = .error e →
        e.isTransient = false := by
    rcases hafter with hn | hn
    · left
      omega
    · right
      intro e he
      rw [submit_journal] at he
      rw [isTransient, show script.answers _ = .error e from he] at hn
      exact hn
  rw [Host.submitAgain_last hlast, submit_journal]

/-- An execution that ends at a connection that cannot be opened. -/
private theorem execute_of_closed {i : Nat} {e : Failure}
    (hi : i < script.retries m.retry.attempts)
    (hd : i = 0 ∨ Host.waitSeconds m = .ok d)
    (hopen : ∀ j < i, script.reconnection j = .ok ())
    (hclosed : script.reconnection i ≠ .ok ())
    (he : script.answers i = .error e) :
    script.host.execute (some m) o mode steps []
      = (.error e, script.journal m d mode steps i ++ [.submitted mode steps,
        .reconnected]) := by
  obtain ⟨hle, hbefore, -⟩ := script.retries_spec m.retry.attempts
  have hgo : script.host.submitAgain m steps mode m.retry.attempts [] = _ :=
    submitAgain_journal (Nat.le_of_lt hi) hopen hd
  have htransient : e.isTransient = true := by
    have hi' := hbefore i hi
    rw [isTransient, he] at hi'
    exact hi'
  -- a reconnection that was not asked for could not have failed
  have hasks : script.asksReconnect i = true := by
    cases hasks : script.asksReconnect i with
    | true => rfl
    | false =>
        refine absurd ?_ hclosed
        rw [reconnection, hasks]
        rfl
  have hleft : m.retry.attempts - i = m.retry.attempts - i - 1 + 1 := by omega
  cases hreconnection : script.reconnection i with
  | ok u => exact absurd hreconnection hclosed
  | error f =>
      have hsubmit : script.host.submit steps mode
          (script.journal m d mode steps i) = _ :=
        submit_journal i
      have hreopen :
          script.host.reopen e (script.journal m d mode steps i ++ _) = _ :=
        reopen_journal he
      rw [he] at hsubmit
      rw [hreconnection, hasks, if_pos rfl, List.append_assoc] at hreopen
      rw [hleft, Host.submitAgain_closed hsubmit htransient hreopen] at hgo
      have hrun := Host.execute_some (o := o) hgo
      exact hrun

/-- An execution that ends because there is no wait to ask for. -/
private theorem execute_of_overflow {f : Failure}
    (hd : Host.waitSeconds m = .error f)
    (hn : 0 < script.retries m.retry.attempts)
    (hopen : script.reconnection 0 = .ok ()) :
    script.host.execute (some m) o mode steps []
      = (.error f, .submitted mode steps ::
          (if script.asksReconnect 0 then [.reconnected] else [])
            ++ [.counted m.label]) := by
  obtain ⟨hle, hbefore, -⟩ := script.retries_spec m.retry.attempts
  have h0 := hbefore 0 hn
  have hleft : m.retry.attempts = m.retry.attempts - 1 + 1 := by omega
  cases he : script.answers 0 with
  | ok v => simp [isTransient, he] at h0
  | error e =>
      have htransient : e.isTransient = true := by
        simpa [isTransient, he] using h0
      have hsubmit : script.host.submit steps mode [] = _ :=
        submit_journal (m := m) (d := .zero false) 0
      have hreopen : script.host.reopen e ([] ++ [.submitted mode steps])
          = _ :=
        reopen_journal (m := m) (d := .zero false) he
      rw [he] at hsubmit
      rw [hopen] at hreopen
      have hgo : script.host.submitAgain m steps mode (m.retry.attempts - 1
          + 1) [] = _ :=
        Host.submitAgain_overflow hd hsubmit htransient hreopen
      rw [← hleft] at hgo
      have hrun := Host.execute_some (o := o) hgo
      exact hrun

end Script

-- ============================================================== the server

/-- What a run of a traversal leaves of a graph. -/
def Graph.after (steps : List Step) (g : Graph) : Graph := (g.evaluate steps).2

/-- The server takes its answers off its script first, and then from its
graph. -/
private theorem Server.graph_submit (steps : List Step) (mode : Mode) (n : Nat)
    (s : Server) :
    ((fun s : Server => (s.submit steps mode).2)^[n] s).graph
      = (Graph.after steps)^[n - (s.failures.length + s.replies.length)]
        s.graph := by
  -- on the submissions: each takes a failure, then a reply, and only then the
  -- graph
  induction n generalizing s with
  | zero => simp
  | succ n ih =>
      rw [Function.iterate_succ_apply, ih]
      obtain ⟨graph, failures, replies, reconnectFailure, closed⟩ := s
      cases failures with
      | cons e failures =>
          have hcount : n + 1 - ((e :: failures).length + replies.length)
              = n - (failures.length + replies.length) := by
            simp only [List.length_cons]
            omega
          rw [hcount]
          rfl
      | nil =>
          cases replies with
          | cons reply replies =>
              have hcount : n + 1
                  - (([] : List Failure).length + (reply :: replies).length)
                    = n - (([] : List Failure).length + replies.length) := by
                simp only [List.length_cons, List.length_nil]
                omega
              rw [hcount]
              rfl
          | nil =>
              have hserver :
                  (submit steps mode ⟨graph, [], [], reconnectFailure,
                    closed⟩).2 = ⟨graph.after steps, [], [], reconnectFailure,
                      closed⟩ := by
                show (evaluate steps mode ⟨graph, [], [], reconnectFailure,
                  closed⟩).2 = _
                unfold evaluate Graph.after
                rcases graph.evaluate steps with ⟨e | items, g⟩ <;> rfl
              rw [hserver]
              show (Graph.after steps)^[n] (graph.after steps)
                  = (Graph.after steps)^[n + 1] graph
              rw [Function.iterate_succ_apply]

namespace Connector

/-- The submissions of a connector so far. -/
def submitted (c : Connector) : List (Mode × List Step) :=
  c.effects.filterMap Effect.submission?

/-- A traversal has been submitted a number of times in a mode, and the server
has answered as often. -/
def Served (steps : List Step) (mode : Mode) (c c' : Connector) : Prop :=
  ∃ n, c'.submitted = c.submitted ++ List.replicate n (mode, steps) ∧
    c'.server = (fun s : Server => (s.submit steps mode).2)^[n] c.server

variable {steps : List Step} {mode : Mode}

theorem frame_served : Frame (Served steps mode) where
  refl _ := ⟨0, by simp, rfl⟩
  trans := by
    rintro a b c ⟨n, hn, hserver⟩ ⟨n', hn', hserver'⟩
    refine ⟨n + n', ?_, ?_⟩
    · rw [hn', hn, List.append_assoc, List.replicate_append_replicate]
    · rw [hserver', hserver, ← Function.iterate_add_apply, Nat.add_comm]
  note c e he _ := by
    refine ⟨0, ?_, rfl⟩
    simp [submitted, Connector.note, he]
  advance _ _ := ⟨0, by simp [submitted, Connector.advance, settle], rfl⟩

theorem served_submitOnce :
    Act.Keeps (Served steps mode) (Act.submitOnce steps mode) := by
  intro c
  refine ⟨1, ?_, rfl⟩
  show (c.effects ++ [Effect.submitted mode steps]).filterMap
    Effect.submission? = _
  rw [List.filterMap_append]
  rfl

/-- The graph after an execution is that of the runs beyond the server's
script. -/
theorem served_execute {o : Options} (ho : o.joined = none) (c : Connector)
    (model : Option String) :
    ∃ n, (Act.execute model steps o mode c).2.submitted
        = c.submitted ++ List.replicate n (mode, steps) ∧
      (Act.execute model steps o mode c).2.server.graph
        = (Graph.after steps)^[n
          - (c.server.failures.length + c.server.replies.length)]
            c.server.graph := by
  obtain ⟨n, hn, hserver⟩ :=
    Act.keeps_execute frame_served served_submitOnce ho model c
  refine ⟨n, hn, ?_⟩
  rw [hserver, Server.graph_submit]

end Connector

namespace Script

/-- What an execution asks of its host, and what it ends with. Without a model
there is one submission. For a model there are as many rounds as submissions in
a row fail so that they may be repeated, within the budget, and then one
submission that decides; unless a connection cannot be opened, and then it is
the failure before that which is passed on. This holds if the delay has a
floating-point form or does not come into it; else the execution ends with an
overflow when it is about to wait for the first time.

The engine of a connector is this execution on the connector's host, and the
graph of its server has been run on once for each submission that the server's
script had no answer for. -/
theorem execute_accounts (script : Script) (m : Model) (o : Options)
    (mode : Mode) (steps : List Step) :
    let n := script.retries m.retry.attempts
    let run := fun model => script.host.execute model o mode steps []
    let made := fun d i => script.journal m d mode steps i
      ++ [Effect.submitted mode steps]
    run none = (script.answers 0 >>= o.finish none mode,
      [.submitted mode steps]) ∧
    (∀ d, n = 0 ∨ script.reconnection 0 ≠ .ok () ∨ Host.waitSeconds m = .ok d →
      ((∀ i < n, script.reconnection i = .ok ()) →
        run (some m) = (script.result m o mode n, made d n)) ∧
      ∀ i < n, (∀ j < i, script.reconnection j = .ok ()) →
        script.reconnection i ≠ .ok () → ∃ e, script.answers i = .error e ∧
          run (some m) = (.error e, made d i ++ [.reconnected])) ∧
    (∀ e, Host.waitSeconds m = .error e → 0 < n →
      script.reconnection 0 = .ok () →
      run (some m) = (.error e, .submitted mode steps ::
        (if script.asksReconnect 0 then [.reconnected] else [])
          ++ [.counted m.label])) ∧
    ∀ (c : Connector) (model : Option String), o.joined = none →
      (∀ found, Act.modelFor model c = (.ok found, c) →
        Act.execute model steps o mode c
          = Connector.host.execute found o mode steps c) ∧
      ∃ k, (Act.execute model steps o mode c).2.submitted
          = c.submitted ++ List.replicate k (mode, steps) ∧
        (Act.execute model steps o mode c).2.server.graph
          = (Graph.after steps)^[k
            - (c.server.failures.length + c.server.replies.length)]
              c.server.graph := by
  intro n run made
  refine ⟨?_, fun d hd => ⟨fun hopen => ?_, fun i hi hopen hclosed => ?_⟩,
    fun e hd hn hopen => ?_, fun c model ho => ⟨fun found hfound => ?_, ?_⟩⟩
  · have hsubmit : script.host.submitWithRetry none steps mode []
        = (script.answers 0, [.submitted mode steps]) := rfl
    show script.host.execute none o mode steps [] = _
    unfold Host.execute
    rw [hsubmit]
    cases script.answers 0 <;> rfl
  · refine execute_of_open ?_ hopen
    rcases hd with hn | hclosed | hd
    · exact .inl hn
    · exact .inl (Nat.eq_zero_of_not_pos fun hn => hclosed (hopen 0 hn))
    · exact .inr hd
  · have hwait : i = 0 ∨ Host.waitSeconds m = .ok d := by
      rcases hd with hn | hfirst | hd
      · omega
      · exact .inl (Nat.eq_zero_of_not_pos fun hpos => hfirst (hopen 0 hpos))
      · exact .inr hd
    have htransient := (script.retries_spec m.retry.attempts).2.1 i hi
    cases he : script.answers i with
    | ok v => simp [isTransient, he] at htransient
    | error e =>
        have hrun : run (some m) = _ :=
          execute_of_closed hi hwait hopen hclosed he
        refine ⟨e, rfl, hrun.trans ?_⟩
        rw [show made d i ++ [.reconnected] = _ from List.append_assoc _ _ _]
        rfl
  · exact execute_of_overflow hd hn hopen
  · exact execute_eq hfound ho steps mode
  · exact Connector.served_execute ho c model

-- A collision and then an empty result, for a model with one repetition.

def sampleScript : Script where
  answers
    | 0 => .error (.refusal "ConcurrentModificationException")
    | _ => .ok (.list [])
  reconnects _ := .ok ()

def sampleModel (delay : Nat) : Model where
  label := .text "City"
  name := "City"
  named := rfl
  kind := .vertex
  fields := []
  retry := ⟨1, delay⟩
  idField := .text "id"

/-- After 100 milliseconds the submission is repeated. No floating-point number
is as large as `twoPow 1024`, so there is no repetition after as many. -/
theorem execute_accounts_sample :
    (∃ d, Host.waitSeconds (sampleModel 100) = .ok d ∧
      sampleScript.host.execute (some (sampleModel 100)) .standard .toList []
        []
        = (.ok (.list []),
          [.submitted .toList [], .counted (.text "City"), .slept d,
            .submitted .toList []])) ∧
      sampleScript.host.execute (some (sampleModel (twoPow 1024))) .standard
        .toList [] [] = (.error (.slip .overflow),
          [.submitted .toList [], .counted (.text "City")]) := by
  have hn : sampleScript.retries 1 = 1 := by decide +kernel
  have hasks : sampleScript.asksReconnect 0 = false := by decide +kernel
  have hopen : sampleScript.reconnection 0 = .ok () := by
    rw [reconnection, hasks]
    rfl
  -- the short delay goes the regular way, the long one overflows before the
  -- sleep
  obtain ⟨-, hregular, -, -⟩ :=
    sampleScript.execute_accounts (sampleModel 100) .standard .toList []
  obtain ⟨-, -, hoverflow, -⟩ :=
    sampleScript.execute_accounts (sampleModel (twoPow 1024))
      .standard .toList []
  constructor
  · have hfinite : (Host.waitSeconds (sampleModel 100)).isOk = true := by
      decide +kernel
    cases hd : Host.waitSeconds (sampleModel 100) with
    | error e => rw [hd] at hfinite; cases hfinite
    | ok d =>
        have hrun := (hregular d (.inr (.inr hd))).1 fun i hi => by
          have hfirst : i = 0 := Nat.lt_one_iff.mp (Nat.lt_of_lt_of_eq hi hn)
          rw [hfirst, hopen]
        rw [show sampleScript.retries (sampleModel 100).retry.attempts
            = 1 from hn] at hrun
        have hjournal : sampleScript.journal (sampleModel 100) d .toList [] 1
            = [.submitted .toList [], .counted (.text "City"), .slept d] := by
          rw [journal_succ, block, hasks]
          rfl
        refine ⟨d, rfl, hrun.trans (Prod.ext rfl ?_)⟩
        dsimp only
        rw [hjournal]
        rfl
  · have hinfinite : (Host.waitSeconds (sampleModel (twoPow 1024))).isOk
        = false := by
      decide +kernel
    cases hd : Host.waitSeconds (sampleModel (twoPow 1024)) with
    | ok d => rw [hd] at hinfinite; cases hinfinite
    | error e =>
        have hrun :=
          hoverflow e hd (Nat.lt_of_lt_of_eq Nat.zero_lt_one hn.symm) hopen
        rw [hasks, Host.waitSeconds_eq_error hd] at hrun
        exact hrun

end Script

end GraphMapper

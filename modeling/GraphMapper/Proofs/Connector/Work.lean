/-
What a call does to the pending work of transactions.

Three kinds of calls matter. A change under a transaction goes behind the work
that is pending there, and a traversal of the caller's own takes the place of
that work (`Work`). The opening of a transaction adds one without work. All
other calls at most end transactions, and so do those of the first two kinds
when they fail, when a destruction has counted nothing, and when they are under
no transaction (`settled_quiet`, `contributes_act`).

# Why there is one argument for five changes

Each change finds its steps behind a source and executes them (`Act.mutate`).
Under a transaction that is all it does to the connector: the source is read
off the pending work, and the execution puts the steps in the place of it
(`mutate_joined`). What is done before, such as counting, and what is done with
the result afterwards has no part in it. So what a count and an execution leave
alone, a change leaves alone (`keeps_work`).

Chain: `Connector.Frame` for what is left alone and `Query.Appending` for steps
behind a source; `Connector.Pending` goes through runs of calls with it.
-/
import GraphMapper.Proofs.Connector.Frame
import GraphMapper.Proofs.Query.Appending

namespace GraphMapper

-- ==================================================================== work

/-- What a call asks to be done under a transaction. -/
structure Work where
  /-- The traversal, from nothing. -/
  steps : Registry → Checked (List Step)
  /-- It takes the place of what is pending and does not go behind it. -/
  replaces : Bool
  /-- The options of the call, which may name a transaction. -/
  options : Value

namespace Work

/-- A change of the elements of a model. -/
def change (model : Option String) (operation : Model → Build Unit)
    (options : Value) : Work where
  steps r := do Build.traversalFrom [] (operation (← r.get model))
  replaces := false
  options := options

/-- A traversal of the caller's own. -/
def raw (steps : List Step) (options : Value) : Work :=
  ⟨fun _ => .ok steps, true, options⟩

/-- The traversals that a transaction holds when steps have been added to those
it held. -/
def addTo (w : Work) (held : List (List Step)) (s : List Step) :
    List (List Step) :=
  if w.replaces then [s] else held ++ [s]

/-- The pending work when steps have been added to what was pending. -/
def behind (w : Work) (s : List Step) : Option (List Step) → List Step
  | none => s
  | some p => if w.replaces then s else p ++ .call .fold [] :: s

/-- The options name the transaction. -/
def joins (w : Work) (tx : String) : Bool :=
  match Options.ofValue w.options with
  | .ok o => o.joined == some tx
  | .error _ => false

end Work

namespace Call

/-- What the call asks to be done under the transaction of its options, if it
can be under one. -/
def work? : Call → Option Work
  | .create model record options =>
      some (.change model (Query.create · record) options)
  | .save model record options =>
    some (.change model (fun m => do
      let es ← Build.check record.entries
      Query.replace m (Entries.get m.idField es) record) options)
  | .replaceById model id record options =>
    some (.change model (Query.replace · id record) options)
  | .updateAll model filter record options =>
    some (.change model (Query.update · filter record) options)
  | .destroyAll model filter options =>
      some (.change model (Query.drop · filter) options)
  | .destroyById model id options =>
    some (.change model (fun m => Query.drop m (Query.byId m id)) options)
  | .execute steps options _ | .engine _ steps options _ =>
      some (.raw steps options)
  | _ => none

/-- The answer is a count of nothing. -/
def isZeroCount : Value → Bool
  | .map [(_, .int n)] => n == 0
  | _ => false

/-- The answer is that of a destruction that has counted nothing. -/
def foundNothing : Call → Value → Bool
  | .destroyAll _ _ _, answer | .destroyById _ _ _, answer =>
      isZeroCount answer
  | _, _ => false

end Call

namespace Connector

/-- The call is accepted under the transaction: it names it and succeeds, and
is no destruction that has found nothing. -/
def accepts (c : Connector) (tx : String) (call : Call) : Bool :=
  match call.work?, (c.perform call).1 with
  | some w, .ok answer => w.joins tx && !call.foundNothing answer
  | _, _ => false

/-- The traversals that a transaction holds after a call. -/
def heldAfter (c : Connector) (tx : String) (held : List (List Step))
    (call : Call) :
    List (List Step) :=
  if c.accepts tx call then
    match call.work? with
    | some w =>
      match w.steps c.registry with
      | .ok s => w.addTo held s
      | .error _ => held
    | none => held
  else held

/-- The traversals that a transaction holds after calls, one after the
other. -/
def heldBy (c : Connector) (tx : String) (held : List (List Step)) :
    List Call → List (List Step)
  | [] => held
  | call :: calls =>
      heldBy (c.perform call).2 tx (c.heldAfter tx held call) calls

end Connector

namespace Transactions

variable {r r' r'' : Transactions (List Step)}

/-- Steps have been added to the work of a transaction. Before and after that,
transactions have at most ended. -/
def Stores (w : Work) (s : List Step) (tx : String)
    (r r' : Transactions (List Step)) : Prop :=
  ∃ found work stored,
    r.Narrows found ∧ (∀ p, found.pending tx = .ok p → work = w.behind s p) ∧
    found.store tx (some work) = .ok stored ∧ stored.Narrows r'

/-- What has ended before makes no difference to what is stored. -/
theorem Stores.after {w : Work} {s : List Step} {tx : String}
    (h : Stores w s tx r' r'') (hn : r.Narrows r') : Stores w s tx r r'' := by
  obtain ⟨found, work, stored, hfound, hwork, hstore, hstored⟩ := h
  exact ⟨found, work, stored, hn.trans hfound, hwork, hstore, hstored⟩

/-- Nor does what ends afterwards. -/
theorem Stores.narrows {w : Work} {s : List Step} {tx : String}
    (h : Stores w s tx r r') (hn : r'.Narrows r'') : Stores w s tx r r'' := by
  obtain ⟨found, work, stored, hfound, hwork, hstore, hstored⟩ := h
  exact ⟨found, work, stored, hfound, hwork, hstore, hstored.trans hn⟩

end Transactions

-- ================================================================== quiet

namespace Act

open Connector

/-- Outside of a transaction, submissions are all that an execution does. -/
theorem settled_execute {o : Options} (ho : o.joined = none)
    (model : Option String) (steps : List Step) (mode : Mode) :
    Keeps Settled (execute model steps o mode) :=
  keeps_execute frame_settled (settled_submitOnce steps mode) ho model

/-- Steps that read end transactions at most, like all that are submitted. -/
private theorem settled_reading (steps : List Step)
    (_ : Graph.readsOnly steps = true) (mode : Mode) :
    Keeps Settled (submitOnce steps mode) := settled_submitOnce steps mode

/-- To count ends transactions at most. -/
theorem settled_count (model : Option String) (filter : Value) :
    Keeps Settled (count model filter) :=
  keeps_count frame_settled settled_reading model filter

/-- To take the pending work of one ends it. -/
private theorem settled_takePending (tx : String) :
    Keeps Settled (takePending tx) := by
  intro c
  cases hcommit : c.transactions.commit tx with
  | error e =>
      simp only [takePending, run, hcommit]
      exact frame_settled.refl c
  | ok taken =>
      simp only [takePending, run, hcommit]
      exact ⟨rfl, (Transactions.commit_eq_ok hcommit).2⟩

/-- To close the connector ends none that is not at its end already. -/
theorem settled_close : Keeps Settled close :=
  fun _ => ⟨rfl, Transactions.narrows_clear _⟩

/-- A call that asks for no work, opens no transaction and registers no model
leaves the registry and at most ends transactions. -/
theorem settled_quiet {call : Call} (hwork : call.work? = none)
    (hbegin : ∀ timeout, call ≠ .begin timeout)
    (hregister : ∀ d, call ≠ .register d) :
    Keeps Settled call.act := by
  -- the calls that script the server touch no transaction
  have hscript : ∀ f, Keeps Settled (Call.script f) :=
    fun f c => ⟨rfl, .refl _⟩
  cases call
  case all model filter options =>
      exact keeps_all frame_settled settled_reading _ _ _
  case findOne model filter =>
      exact keeps_findOne frame_settled settled_reading _ _
  case findById model id filter =>
      exact keeps_findById frame_settled settled_reading _ _ _
  case presence model id =>
      exact keeps_presence frame_settled settled_reading _ _
  case count model filter =>
    exact (settled_count model filter).bind frame_settled fun _ =>
      keeps_pure frame_settled _
  case begin timeout => exact absurd rfl (hbegin timeout)
  case register d => exact absurd rfl (hregister d)
  case commit tx =>
      exact keeps_commit frame_settled settled_submitOnce
        (settled_takePending tx)
  case rollback tx => exact fun c => ⟨rfl, Transactions.narrows_rollback _ tx⟩
  case connect => exact keeps_connect frame_settled
  case close => exact settled_close
  case context model =>
    exact keeps_countInContext frame_settled settled_reading
      settled_close model
  case pending tx =>
    refine (keeps_ask frame_settled _).bind frame_settled fun work => ?_
    cases work with
    | none => exact keeps_pure frame_settled _
    | some steps => exact keeps_pure frame_settled _
  case hasModel model => exact keeps_ask frame_settled _
  case submitOnce steps mode =>
    exact (keeps_check frame_settled _).bind frame_settled fun mode =>
      settled_submitOnce steps mode
  case advance milliseconds =>
      exact fun c => frame_settled.advance c milliseconds
  case failNext failures => exact hscript _
  case reply values => exact hscript _
  case failReconnect failure => exact hscript _
  case look => exact keeps_pure frame_settled _
  all_goals exact absurd hwork (by simp [Call.work?])

-- =============================================================== outcomes

/-- What comes of an act that asks for work under a transaction: either
transactions at most end, and the act fails or has found nothing; or it
succeeds and its steps have been added to the pending work. -/
def ContributesTo (tx : String) (w : Work) (nothing : Value → Bool)
    (act : Act Value) : Prop :=
  ∀ c : Connector,
    (c.transactions.Narrows (act c).2.transactions ∧
      ∀ answer, (act c).1 = .ok answer → nothing answer = true) ∨
    ∃ s answer, w.steps c.registry = .ok s ∧ (act c).1 = .ok answer ∧
      nothing answer = false ∧
      Transactions.Stores w s tx c.transactions (act c).2.transactions

variable {α : Type} {tx : String} {w : Work} {nothing : Value → Bool}
  {act : Act Value}

/-- To observe a call does not change what it contributes. -/
theorem ContributesTo.observed (h : ContributesTo tx w nothing act)
    (operation : String) (model : Option String) :
    ContributesTo tx w nothing (observed operation model act) := by
  intro c
  rw [observed_fst, observed_transactions]
  exact h c

/-- An act that settles may come first. -/
theorem ContributesTo.after {a : Act α} {k : α → Act Value}
    (ha : Keeps Settled a) (hk : ∀ x, ContributesTo tx w nothing (k x)) :
    ContributesTo tx w nothing (a >>= k) := by
  intro c
  obtain ⟨hregistry, hnarrows⟩ := ha c
  cases hr : a c with
  | mk out c' =>
      rw [hr] at hregistry hnarrows
      cases out with
      | error e =>
          rw [bind_apply_error hr]
          exact .inl ⟨hnarrows, fun answer h => nomatch h⟩
      | ok x =>
          rw [bind_apply_ok hr]
          rcases hk x c' with ⟨hn, hout⟩
            | ⟨s, answer, hs, hout, hnothing, hstores⟩
          · exact .inl ⟨hnarrows.trans hn, hout⟩
          · rw [show c'.registry = c.registry from hregistry] at hs
            exact .inr ⟨s, answer, hs, hout, hnothing, hstores.after hnarrows⟩

-- ================================================================ changes

/-- A change as far as its transaction is concerned: its steps are found and
executed. -/
def mutate (model : Option String) (operation : Model → Build Unit)
    (o : Options) (mode : Mode) :
    Act Value := do
  let steps ← build model (source o) operation
  execute model steps o mode

/-- A change with its options, observed as a whole. -/
def changing (operation : String) (model : Option String)
    (builder : Model → Build Unit) (mode : Mode) (options : Value)
    (finish : Options → Value → Act Value) : Act Value := do
  let o ← check (Options.ofValue options)
  observed operation model (mutate model builder o mode >>= finish o)

/-- A creation is a change whose result is the id of what it has made. -/
theorem create_eq (model : Option String) (record options : Value) :
    create model record options
      = changing "create" model (Query.create · record) .next
        options fun _ v =>
          match v with
          | .map es => pure (Entries.field "id" es)
          | _ => pure .null := by
  simp only [changing, mutate, bind_assoc]
  rfl

/-- A replacement is a change that needs an id and has no result. -/
theorem replaceById_eq (model : Option String) (id record options : Value) :
    replaceById model id record options
      = (do
          check (requireId id)
          changing "replace_by_id" model (Query.replace · id record) .iterate
            options fun _ _ => pure .null) := by
  simp only [changing, mutate, bind_assoc]
  rfl

/-- An update is a change whose result is the count, unless it is only
joined. -/
theorem updateAll_eq (model : Option String) (filter record options : Value) :
    updateAll model filter record options
      = changing "update_all" model (Query.update · filter record) .next
        options fun o result =>
          if o.joined.isSome then pure (counted .null)
          else (do pure (counted (.int (← check (countOf result))))) := by
  simp only [changing, mutate, bind_assoc]
  rfl

/-- A destruction counts first, and observes only what it then does. -/
theorem destroyAll_eq (model : Option String) (filter options : Value) :
    destroyAll model filter options
      = (do
          let o ← check (Options.ofValue options)
          let matched ← count model filter
          if matched = 0 then pure (counted (.int 0))
          else
            observed "destroy_all" model do
              let _ ← mutate model (Query.drop · filter) o .iterate
              pure (counted (.int matched))) := by
  simp only [mutate, bind_assoc]
  rfl

/-- Under a transaction an execution stores the steps. -/
theorem execute_joined {o : Options} (ho : o.joined = some tx)
    (model : Option String) (steps : List Step) (mode : Mode) (c : Connector) :
    execute model steps o mode c
      = match c.transactions.store tx (some steps) with
        | .ok stored => (.ok .null, { c with transactions := stored })
        | .error e => (.error e, c) := by
  unfold execute
  rw [ho]
  simp only
  rw [bind_apply]
  simp only [store, run]
  cases c.transactions.store tx (some steps) with
  | error e => rfl
  | ok stored => rfl

/-- Under a transaction a source is read off its pending work. -/
theorem source_joined {o : Options} (ho : o.joined = some tx) (c : Connector) :
    source o c
      = match c.transactions.pending tx with
        | .ok none => (.ok [], c)
        | .ok (some p) => (.ok (p ++ [.call .fold []]), c)
        | .error e => (.error e, c) := by
  unfold source
  rw [ho]
  simp only
  rw [bind_apply]
  simp only [ask]
  cases c.transactions.pending tx with
  | error e => rfl
  | ok p => cases p <;> rfl

/-- Under a transaction, finding the steps of a change fails and leaves
everything, or gives the steps from nothing behind the pending work. -/
private theorem build_joined {o : Options} (ho : o.joined = some tx)
    {model : Option String} {operation : Model → Build Unit}
    (happends : ∀ m, (operation m).Appends) (options : Value) (c : Connector) :
    (∃ e, build model (source o) operation c = (.error e, c)) ∨
      ∃ s steps, (Work.change model operation options).steps c.registry
        = .ok s ∧
        (∀ p, c.transactions.pending tx = .ok p →
          steps = (Work.change model operation options).behind s p) ∧
        build model (source o) operation c = (.ok steps, c) := by
  -- pending work, model and builder can each fail; else the new steps stand
  -- behind the pending ones
  cases hpending : c.transactions.pending tx with
  | error e =>
      refine .inl ⟨e, bind_apply_error ?_⟩
      rw [source_joined ho, hpending]
  | ok p =>
      obtain ⟨start, hstart, hbehind⟩ : ∃ start, source o c = (.ok start, c) ∧
          ∀ s, start ++ s
            = (Work.change model operation options).behind s p := by
        rw [source_joined ho, hpending]
        cases p with
        | none => exact ⟨[], rfl, fun s => rfl⟩
        | some p =>
            exact ⟨p ++ [.call .fold []], rfl,
              fun s => by simp [Work.behind, Work.change]⟩
      cases hmodel : c.registry.get model with
      | error e =>
          refine .inl ⟨e, (bind_apply_ok hstart).trans (bind_apply_error ?_)⟩
          rw [ask, hmodel]
      | ok m =>
          have hbuild : build model (source o) operation c
              = (Build.traversalFrom start (operation m), c) := by
            refine (bind_apply_ok hstart).trans (bind_apply_ok ?_)
            rw [ask, hmodel]
          rw [hbuild, Build.traversalFrom_eq_append (happends m)]
          cases hsteps : Build.traversalFrom [] (operation m) with
          | error e => exact .inl ⟨e, rfl⟩
          | ok s =>
              refine .inr ⟨s, start ++ s, ?_, fun q hq => ?_, rfl⟩
              · simp only [Work.change, hmodel, bind, Except.bind, hsteps]
              · rw [hbehind, Except.ok.inj hq]

/-- The steps of a change go behind the pending work. -/
theorem mutate_joined {o : Options} (ho : o.joined = some tx)
    (model : Option String) {operation : Model → Build Unit}
    (happends : ∀ m, (operation m).Appends) (mode : Mode) (options : Value)
    {k : Value → Act Value} {answer : Value} (hk : k .null = pure answer)
    (hnothing : nothing answer = false) :
    ContributesTo tx (.change model operation options) nothing
      (mutate model operation o mode >>= k) := by
  intro c
  -- a failed change stores nothing and answers nothing
  have hfailed : ∀ {e}, mutate model operation o mode c = (.error e, c) →
      c.transactions.Narrows ((mutate model operation o mode >>= k)
        c).2.transactions ∧
        ∀ answer, ((mutate model operation o mode >>= k) c).1 = .ok answer →
          nothing answer = true := by
    intro e he
    rw [bind_apply_error he]
    exact ⟨.refl _, fun answer h => nomatch h⟩
  rcases build_joined ho happends options c with ⟨e, hbuild⟩
    | ⟨s, steps, hs, hbehind, hbuild⟩
  · exact .inl (hfailed (bind_apply_error hbuild))
  · have hmutate : mutate model operation o mode c
        = execute model steps o mode c :=
      bind_apply_ok hbuild
    rw [execute_joined ho] at hmutate
    cases hstore : c.transactions.store tx (some steps) with
    | error e =>
        rw [hstore] at hmutate
        exact .inl (hfailed hmutate)
    | ok stored =>
        rw [hstore] at hmutate
        have hwhole : (mutate model operation o mode >>= k) c
            = (.ok answer, { c with transactions := stored }) := by
          rw [bind_apply_ok hmutate, hk]
          rfl
        rw [hwhole]
        exact .inr ⟨s, answer, hs, rfl, hnothing, c.transactions, steps,
          stored, .refl _, hbehind, hstore, .refl _⟩

-- =================================================== what changes leave alone

variable {R : Connector → Connector → Prop} {operations : String → Prop}
  {o : Options}

/-- A source is only asked for. -/
private theorem keeps_source (h : FrameFor operations R) (o : Options) :
    Keeps R (source o) := by
  unfold source
  split
  · exact keeps_pure h _
  · refine (keeps_ask h _).bind h fun pending => ?_
    split <;> exact keeps_pure h _

/-- A change keeps what its execution keeps: the model and the source are asked
for. -/
theorem keeps_mutate (h : FrameFor operations R) {model : Option String}
    {mode : Mode} (hexecute : ∀ steps, Keeps R (execute model steps o mode))
    (builder : Model → Build Unit) :
    Keeps R (mutate model builder o mode) :=
  (keeps_build h (keeps_source h o) model builder).bind h hexecute

/-- What follows options has to be looked at for these options only. -/
theorem keeps_options (h : Frame R) {options : Value} {k : Options → Act Value}
    (hk : ∀ o, Options.ofValue options = .ok o → Keeps R (k o)) :
    Keeps R (check (Options.ofValue options) >>= k) :=
  (keeps_check h _).bind_of h fun o _ _ ho => hk o (congrArg Prod.fst ho)

/-- With the options that the caller gives, as far as they can be read. -/
private theorem keeps_changing (h : Frame R) {options : Value}
    {model : Option String}
    {mode : Mode}
    (hexecute : ∀ o, Options.ofValue options = .ok o →
      ∀ steps, Keeps R (execute model steps o mode))
    (operation : String)
    (builder : Model → Build Unit) {finish : Options → Value → Act Value}
    (hfinish : ∀ o v, Keeps R (finish o v)) :
    Keeps R (changing operation model builder mode options finish) := by
  refine keeps_options h fun o ho => Keeps.observed h ?_ _ _
  exact (keeps_mutate h (hexecute o ho) builder).bind h (hfinish o)

/-- A call that asks for work only counts and executes with its own options. -/
theorem keeps_work (h : Frame R) {call : Call} (hw : call.work? = some w)
    (hcount : ∀ model filter, Keeps R (count model filter))
    (hexecute : ∀ o, Options.ofValue w.options = .ok o →
      ∀ model steps mode, Keeps R (execute model steps o mode)) :
      Keeps R call.act := by
  -- saving and replacing share one action, and so do both destructions
  have hreplace : ∀ model id record,
      Keeps R (replaceById model id record w.options) := by
    intro model id record
    rw [replaceById_eq]
    refine (keeps_check h _).bind h fun _ => ?_
    exact keeps_changing h (fun o ho steps => hexecute o ho model steps _) _ _
      fun _ _ => keeps_pure h _
  have hdestroy : ∀ model filter,
      Keeps R (destroyAll model filter w.options) := by
    intro model filter
    rw [destroyAll_eq]
    refine keeps_options h fun o ho => (hcount model filter).bind h
      fun matched => ?_
    split
    · exact keeps_pure h _
    · refine Keeps.observed h ?_ _ _
      exact (keeps_mutate h (fun steps => hexecute o ho model steps _) _).bind
        h fun _ => keeps_pure h _
  cases call
  case create model record options =>
    rw [← Option.some.inj hw] at hexecute
    show Keeps R (create model record options)
    rw [create_eq]
    refine keeps_changing h (fun o ho steps => hexecute o ho model steps _) _ _
      fun _ v => ?_
    cases v <;> exact keeps_pure h _
  case save model record options =>
    rw [← Option.some.inj hw] at hreplace
    refine (keeps_ask h _).bind h fun m =>
      (keeps_check h _).bind h fun es => ?_
    exact hreplace model _ record
  case replaceById model id record options =>
    rw [← Option.some.inj hw] at hreplace
    exact hreplace model id record
  case updateAll model filter record options =>
    rw [← Option.some.inj hw] at hexecute
    show Keeps R (updateAll model filter record options)
    rw [updateAll_eq]
    refine keeps_changing h (fun o ho steps => hexecute o ho model steps _) _ _
      fun _ v => ?_
    split
    · exact keeps_pure h _
    · exact (keeps_check h _).bind h fun _ => keeps_pure h _
  case destroyAll model filter options =>
    rw [← Option.some.inj hw] at hdestroy
    exact hdestroy model filter
  case destroyById model id options =>
    rw [← Option.some.inj hw] at hdestroy
    refine (keeps_ask h _).bind h fun m => (keeps_check h _).bind h fun _ => ?_
    exact hdestroy model _
  case execute steps options mode =>
    rw [← Option.some.inj hw] at hexecute
    refine Keeps.observed h ((keeps_check h _).bind h fun mode => ?_) _ _
    exact keeps_options h fun o ho => hexecute o ho none steps mode
  case engine model steps options mode =>
    rw [← Option.some.inj hw] at hexecute
    refine (keeps_check h _).bind h fun mode => ?_
    exact keeps_options h fun o ho => hexecute o ho model steps mode
  all_goals exact absurd hw (by simp [Call.work?])

-- ============================================================== operations

/-- What has come of a call that asks for work: under no transaction
transactions at most end, and under one it contributes to that. -/
def Contributed (w : Work) (nothing : Value → Bool) (c : Connector)
    (out : Checked Value × Connector) : Prop :=
  (c.transactions.Narrows out.2.transactions ∧
    ∀ answer, out.1 = .ok answer → (∀ tx, w.joins tx = false) ∨
    nothing answer = true) ∨
  ∃ tx s answer, w.joins tx = true ∧ w.steps c.registry = .ok s ∧
    out.1 = .ok answer ∧ nothing answer = false ∧
    Transactions.Stores w s tx c.transactions out.2.transactions

/-- Works with the same steps, place and options are the same to a
connector. -/
theorem Contributed.congr {w' : Work} {c : Connector}
    {out : Checked Value × Connector} (h : Contributed w' nothing c out)
    (hsteps : w.steps c.registry = w'.steps c.registry)
    (hreplaces : w.replaces = w'.replaces)
    (hoptions : w.options = w'.options) :
    Contributed w nothing c out := by
  have hjoins : ∀ tx, w.joins tx = w'.joins tx := by
    intro tx
    rw [Work.joins, Work.joins, hoptions]
  have hbehind : ∀ s p, w.behind s p = w'.behind s p := by
    intro s p
    cases p <;> simp only [Work.behind, hreplaces]
  simpa only [Contributed, hsteps, hjoins, Transactions.Stores,
    hbehind] using h

/-- What is read first may fail. -/
private theorem contributed_ask {f : Connector → Checked α} {k : α → Act Value}
    {c : Connector} (hk : ∀ x, f c = .ok x → Contributed w nothing c (k x c)) :
    Contributed w nothing c ((ask f >>= k) c) := by
  cases hf : f c with
  | error e =>
      rw [bind_apply_error (show ask f c = (.error e, c) by rw [ask, hf])]
      refine .inl ⟨.refl _, fun answer h => ?_⟩
      cases h
  | ok x =>
      rw [bind_apply_ok (show ask f c = (.ok x, c) by rw [ask, hf])]
      exact hk x hf

/-- The call does no more to transactions than to contribute its work. -/
def Contributes (w : Work) (nothing : Value → Bool) (act : Act Value) : Prop :=
  ∀ c, Contributed w nothing c (act c)

/-- The options say whether there is a transaction. -/
private theorem contributes_options {k : Options → Act Value}
    (halone : ∀ o, o.joined = none → Keeps Settled (k o))
    (hjoined : ∀ o tx, o.joined = some tx → ContributesTo tx w nothing (k o)) :
    Contributes w nothing (check (Options.ofValue w.options) >>= k) := by
  intro c
  refine contributed_ask (f := fun _ => Options.ofValue w.options)
    fun o ho => ?_
  cases hj : o.joined with
  | none =>
      refine .inl ⟨(halone o hj c).2, fun _ _ => .inl fun tx => ?_⟩
      simp [Work.joins, ho, hj]
  | some tx =>
      rcases hjoined o tx hj c with ⟨hn, hout⟩ | ⟨s, answer, hs⟩
      · exact .inl ⟨hn, fun answer h => .inr (hout answer h)⟩
      · exact .inr ⟨tx, s, answer, by simp [Work.joins, ho, hj], hs⟩

/-- To observe does not change what a call contributes under any
transaction. -/
theorem Contributes.observed (h : Contributes w nothing act)
    (operation : String) (model : Option String) :
    Contributes w nothing (observed operation model act) := by
  intro c
  have hc := h c
  unfold Contributed at hc ⊢
  rw [observed_fst, observed_transactions]
  exact hc

/-- Outside of a transaction a change starts at nothing, and is submitted. -/
private theorem settled_mutate {o : Options} (ho : o.joined = none)
    (model : Option String) (operation : Model → Build Unit) (mode : Mode) :
    Keeps Settled (mutate model operation o mode) :=
  keeps_mutate frame_settled
    (fun steps => settled_execute ho model steps mode) operation

/-- What is made of the result of a change has no part in the matter. -/
private theorem contributes_changing (operation : String)
    (model : Option String)
    {builder : Model → Build Unit} (happends : ∀ m, (builder m).Appends)
    (mode : Mode) (options : Value) {k : Options → Value → Act Value}
    (answer : Value) (hsettled : ∀ o v, Keeps Settled (k o v))
    (hk : ∀ o tx, o.joined = some tx → k o .null = pure answer)
    (hnothing : nothing answer = false) :
    Contributes (.change model builder options) nothing
      (changing operation model builder mode options k) := by
  refine contributes_options (fun o ho => ?_) (fun o tx ho => ?_)
  · exact ((settled_mutate ho model builder mode).bind frame_settled
      (hsettled o)).observed frame_settled _ _
  · exact (mutate_joined ho model happends mode options (hk o tx ho)
      hnothing).observed _ _

/-- A creation contributes the steps of `Query.create`. -/
private theorem contributes_create (model : Option String)
    (record options : Value) :
    Contributes (.change model (Query.create · record) options)
      (fun _ => false) (create model record options) := by
  rw [create_eq]
  refine contributes_changing "create" model (Query.appends_create · record)
    .next options .null (fun o v => ?_) (fun _ _ _ => rfl) rfl
  cases v <;> exact keeps_pure frame_settled _

/-- A replacement contributes those of `Query.replace`. -/
private theorem contributes_replaceById (model : Option String)
    (id record options : Value) :
    Contributes (.change model (Query.replace · id record) options)
      (fun _ => false) (replaceById model id record options) := by
  rw [replaceById_eq]
  refine fun c => contributed_ask (f := fun _ => requireId id) fun _ _ => ?_
  exact contributes_changing "replace_by_id" model
    (Query.appends_replace · id record) .iterate options .null
      (fun _ _ => keeps_pure frame_settled _) (fun _ _ _ => rfl) rfl c

/-- An update contributes those of `Query.update`. -/
private theorem contributes_updateAll (model : Option String)
    (filter record options : Value) :
    Contributes (.change model (Query.update · filter record) options)
      (fun _ => false) (updateAll model filter record options) := by
  rw [updateAll_eq]
  refine contributes_changing "update_all" model
    (Query.appends_update · filter record) .next options (counted .null)
      (fun o v => ?_) (fun o tx ho => ?_) ?_
  · split
    · exact keeps_pure frame_settled _
    · exact (keeps_check frame_settled _).bind frame_settled fun _ =>
        keeps_pure frame_settled _
  · rw [ho]
    rfl
  · rfl

/-- A destruction contributes those of `Query.drop`, unless it has counted
nothing. -/
private theorem contributes_destroyAll (model : Option String)
    (filter options : Value) :
    Contributes (.change model (Query.drop · filter) options) Call.isZeroCount
      (destroyAll model filter options) := by
  rw [destroyAll_eq]
  refine contributes_options (fun o ho => ?_) (fun o tx ho => ?_)
  · refine (settled_count model filter).bind frame_settled fun matched => ?_
    split
    · exact keeps_pure frame_settled _
    · refine Keeps.observed frame_settled ?_ _ _
      exact (settled_mutate ho model _ _).bind frame_settled fun _ =>
        keeps_pure frame_settled _
  · refine ContributesTo.after (settled_count model filter) fun matched => ?_
    split
    · exact fun c =>
        .inl ⟨.refl _, fun answer h => by rw [← Except.ok.inj h]; rfl⟩
    · next hmatched =>
      refine ContributesTo.observed ?_ _ _
      exact mutate_joined ho model (Query.appends_drop · filter) .iterate
        options rfl (by simpa [Call.isZeroCount, counted] using hmatched)

/-- A record that can be read is read before the first step. -/
private theorem steps_change_save {model : Option String}
    {record options : Value}
    {r : Registry} {m : Model} {es : Entries} (hm : r.get model = .ok m)
    (hes : record.entries = .ok es) :
    (Work.change model (fun m => do
        let es ← Build.check record.entries
        Query.replace m (Entries.get m.idField es) record) options).steps r
      = (Work.change model (Query.replace · (Entries.get m.idField es) record)
          options).steps r := by
  simp only [Work.change, hm, hes]
  rfl

/-- Saving is replacing the element that the record names. -/
private theorem contributes_save (model : Option String)
    (record options : Value) : Contributes (.change model (fun m => do
        let es ← Build.check record.entries
        Query.replace m (Entries.get m.idField es) record) options)
          (fun _ => false)
      (save model record options) := by
  intro c
  refine contributed_ask fun m hm => ?_
  refine contributed_ask (f := fun _ => record.entries) fun es hes => ?_
  exact (contributes_replaceById model _ record options c).congr
    (steps_change_save hm hes) rfl rfl

/-- What has an id is destroyed by a filter for the id. -/
private theorem contributes_destroyById (model : Option String)
    (id options : Value) :
    Contributes (.change model (fun m => Query.drop m (Query.byId m id))
      options) Call.isZeroCount (destroyById model id options) := by
  intro c
  refine contributed_ask fun m hm => ?_
  refine contributed_ask (f := fun _ => requireId id) fun _ _ => ?_
  refine (contributes_destroyAll model (Query.byId m id) options c).congr ?_
    rfl rfl
  simp only [Work.change, show c.registry.get model = .ok m from hm]
  rfl

/-- A traversal of the caller's own contributes itself, and nothing stays
pending beside it. -/
private theorem contributes_executeGiven (model : Option String)
    (steps : List Step) (options mode : Value) :
    Contributes (.raw steps options) (fun _ => false)
      (executeGiven model steps options mode) := by
  refine fun c => contributed_ask (f := fun _ => Mode.parse mode)
    fun mode _ => ?_
  refine contributes_options (w := .raw steps options)
    (fun o ho => settled_execute ho model steps mode) (fun o tx ho c => ?_) c
  rw [execute_joined ho]
  cases hstore : c.transactions.store tx (some steps) with
  | error e => exact .inl ⟨.refl _, fun answer h => nomatch h⟩
  | ok stored =>
      refine .inr ⟨steps, .null, rfl, rfl, rfl, c.transactions, steps, stored,
        .refl _, fun p _ => ?_, hstore, .refl _⟩
      cases p <;> rfl

/-- A call that asks for work does no more to transactions than to contribute
it. -/
theorem contributes_act {call : Call} {w : Work} (h : call.work? = some w) :
    Contributes w call.foundNothing call.act := by
  cases call
  case create model record options =>
    rw [← Option.some.inj h]
    exact contributes_create model record options
  case save model record options =>
    rw [← Option.some.inj h]
    exact contributes_save model record options
  case replaceById model id record options =>
    rw [← Option.some.inj h]
    exact contributes_replaceById model id record options
  case updateAll model filter record options =>
    rw [← Option.some.inj h]
    exact contributes_updateAll model filter record options
  case destroyAll model filter options =>
    rw [← Option.some.inj h]
    exact contributes_destroyAll model filter options
  case destroyById model id options =>
    rw [← Option.some.inj h]
    exact contributes_destroyById model id options
  case execute steps options mode =>
    rw [← Option.some.inj h]
    exact (contributes_executeGiven none steps options mode).observed _ _
  case engine model steps options mode =>
    rw [← Option.some.inj h]
    exact contributes_executeGiven model steps options mode
  all_goals exact absurd h (by simp [Call.work?])

end Act

end GraphMapper

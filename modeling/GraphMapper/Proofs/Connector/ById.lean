/-
Operations by id reach at most the element that the id names.

A value under the primary key is an id if it is a scalar. If it is anything
else it is refused, unless it can be read as a condition
(`Filter.isConstraint`): then it is no id at all, and the operation is one on
whatever meets the condition. So an operation by an id that is no condition
fails, or it reads, counts, drops or rewrites the element with the same id, if
the model has one. No other element is noticed or changed, whatever the options
say, however often the submission is repeated, and also when it fails half way.

# Reads and changes

What reads is shown to give what is asked for (`Ensures`), as long as the
connector has the model and the graph (`Facing`). What changes is shown to
change nothing else, for any relation `R` that runs can be put together by
(`Changes`); that leaves just one submission to look at, and there the steps
are known.

Main statement: `byId_reaches`.

Chain: `Query.ById` for the steps, `Connector.Answers` for what is put together
from them; `Connector.Single`, `Connector.Records` and `Connector.Ended` go on
from here.
-/
import GraphMapper.Proofs.Connector.Answers
import GraphMapper.Proofs.Query.ById
import GraphMapper.Proofs.Value.Entries

namespace GraphMapper

namespace Act

open GraphMapper.Filter

variable {name : String} {m : Model} {g : Graph} {id v : Value} {f : Face}

-- ==================================================================== counts

/-- A count comes out as the number that it is. -/
private theorem number_of_completed {steps : List Step} {n : Nat}
    (hgo : g.evaluate steps = (.ok [.number n], g))
    (hv : ∃ raw, Completed g steps .next raw ∧
      Options.standard.finish (some m) .next raw = .ok v) :
    v = .int n := by
  obtain ⟨raw, ⟨items, hitems, hraw⟩, hfinish⟩ := hv
  rw [hgo] at hitems
  have heq : items = [.number n] := (Except.ok.inj (Prod.mk.inj hitems).1).symm
  rw [heq] at hraw
  have hint : raw = .int n := (Except.ok.inj hraw).symm
  rw [hint] at hfinish
  exact (Except.ok.inj hfinish).symm

/-- The number that a count gives is a count. -/
theorem countOf_int (n : Nat) : countOf (.int n) = .ok (n : Int) := by
  cases n with
  | zero => rfl
  | succ n =>
      have hgiven : (Value.int ((n + 1 : Nat) : Int)).isGiven = true := by
        show (((n + 1 : Nat) : Int) != 0) = true
        simp
        omega
      rw [countOf, if_pos hgiven]
      rfl

/-- The list that a query gives is one of rows. -/
theorem rowsOf_list (vs : List Value) : rowsOf (.list vs) = .ok vs := by
  cases vs <;> rfl

/-- To look an element up reads, whatever else is read of it. -/
private theorem readsOnly_byId {steps : List Step}
    (h : Graph.readsOnly steps = true) :
    Graph.readsOnly (Filter.source m [id] :: labelled m.label :: steps)
      = true := by
  unfold Filter.source
  cases m.isEdge <;>
    simp [labelled, Graph.readsOnly, Graph.changes, Graph.runsChildren, h]

variable (hname : name ≠ "") (hface : m.idField.face? = some f)
  (hid : isConstraint m id = false)

include hname hface hid

/-- A count by id counts the element, if it is there. -/
private theorem ensures_count_byId :
    Ensures (Facing name m g) (count (some name) (Query.byId m id)) fun n =>
      id.isScalar = true ∧ n = (target m id g).toList.length := by
  refine Ensures.observed lasting_facing ?_ _ _
  refine (ensures_build _).bind fun steps hsteps => ?_
  obtain ⟨hscalar, rfl⟩ := Query.count_byId hface hid hsteps
  refine (ensures_execute hname (readsOnly_byId rfl) rfl .next).bind
    fun v hv => ?_
  rw [number_of_completed (evaluate_count_byId hscalar) hv, countOf_int]
  exact ensures_check fun n hn => ⟨hscalar, (Except.ok.inj hn).symm⟩

/-- The question for it is whether it is. -/
private theorem ensures_presence :
    Ensures (Facing name m g) (presence (some name) id) fun v =>
      id.isScalar = true ∧ v = .bool (target m id g).isSome := by
  refine Ensures.observed lasting_facing ?_ _ _
  refine (ensures_build _).bind fun steps hsteps => ?_
  obtain ⟨hscalar, rfl⟩ := Query.presence_byId hface hid hsteps
  refine (ensures_execute hname (readsOnly_byId rfl) rfl .next).bind
    fun v hv => ?_
  rw [number_of_completed (evaluate_presence_byId hscalar) hv, countOf_int]
  refine (ensures_check fun n hn => (Except.ok.inj hn).symm).bind fun n hn =>
    ensures_pure ⟨hscalar, ?_⟩
  rw [hn]
  cases target m id g <;> rfl

omit hname hface hid

-- =================================================================== records

/-- The record is that of an element: what the mapper makes of a row of it. -/
def IsRecordOf (m : Model) (g : Graph) (h : Handle) (record : Value) : Prop :=
  ∃ keys row fields item, g.rowOf keys h = .ok row ∧
    Result.ofRow m.isEdge row = .ok item ∧ toRecord m fields item = .ok record

/-- If a query gives rows, its records are made of these, one by one. -/
theorem ensures_all {filter : Value} {es : Entries} (hname : name ≠ "")
    (hfilter : (if filter.isGiven then filter
      else .map [(.text "where", .map [])]) = .map es)
    (hquery : ∀ steps,
      Build.traversalFrom [] (Query.query m (.map es)) = .ok steps →
      Graph.readsOnly steps = true ∧
        ∀ items, g.evaluate steps = (.ok items, g) → ∃ rows : List Entries,
        items = rows.map .row) :
    Ensures (Facing name m g) (all (some name) filter .null) fun v =>
      ∃ steps, ∃ rows : List Entries, ∃ fields records,
        Build.traversalFrom [] (Query.query m (.map es)) = .ok steps ∧
        g.evaluate steps = (.ok (rows.map .row), g) ∧
        Projection.fields es = .ok fields ∧
        rows.mapM (fun row => Result.ofRow m.isEdge row >>= toRecord m fields)
          = .ok records ∧ v = .list records := by
  refine (ensures_check (Q := fun o => o = .standard) fun o ho =>
    (Except.ok.inj ho).symm).bind fun o ho => ?_
  rw [ho]
  refine Ensures.observed lasting_facing ?_ _ _
  refine (ensures_ask (Q := fun found => found = m)
    fun c hc x hx => Except.ok.inj (hx.symm.trans hc.model)).bind
      fun found hfound => ?_
  rw [hfound, hfilter]
  refine (ensures_build _).bind fun steps hsteps => ?_
  -- the traversal only reads and gives rows, so the records are those rows
  -- read back
  obtain ⟨hreads, hrows⟩ := hquery steps hsteps
  refine (ensures_execute hname hreads rfl .toList).bind fun v hv => ?_
  obtain ⟨raw, ⟨items, hitems, hraw⟩, hfinish⟩ := hv
  obtain ⟨rows, rfl⟩ := hrows items hitems
  -- what the server returns is taken apart: raw rows, then presented rows
  rw [Graph.complete_rows] at hraw
  have hpresent : Result.present m.isEdge (.list (rows.map .map)) = .ok v := by
    rw [Except.ok.inj hraw]
    exact hfinish
  rw [Result.present_rows] at hpresent
  obtain ⟨presented, hpresented, hv⟩ := bind_eq_ok hpresent
  obtain rfl : .list presented = v := Except.ok.inj hv
  refine (ensures_check (Q := fun fields => Projection.fields es = .ok fields)
    fun _ hfields => hfields).bind fun fields hfields => ?_
  rw [rowsOf_list]
  refine (ensures_check (Q := fun given => given = presented)
    fun given hgiven => (Except.ok.inj hgiven).symm).bind
      fun given hgiven => ?_
  rw [hgiven]
  refine (ensures_check fun records hrecords => ?_).bind
    fun records hrecords =>
      ensures_pure ⟨steps, rows, fields, records, hsteps, hitems, hfields,
        hrecords, rfl⟩
  exact mapM_mapM hpresented hrecords

/-- What is asked for in a filter of one's own stays what it is under the
entries that are put in. -/
private theorem field_where {filter filtered : Value}
    (h : withEntries filter ((.text "where", Query.byId m id) :: onlyFirst)
      = .ok filtered) :
    ∃ es, filtered = .map es ∧ Entries.field "where" es = Query.byId m id := by
  have hput : ∃ own, filtered = .map
      (((.text "where", Query.byId m id) :: onlyFirst).foldl
        (fun acc e => Entries.insert e.1 e.2 acc) own) := by
    unfold withEntries at h
    cases filter with
    | map own => exact ⟨own, (Except.ok.inj h).symm⟩
    | _ =>
        simp only at h
        split at h
        · cases h
        · exact ⟨[], (Except.ok.inj h).symm⟩
  obtain ⟨own, rfl⟩ := hput
  have hkey : (Value.text "where").face? = some (.text "where") := rfl
  refine ⟨_, rfl, ?_⟩
  unfold Entries.field Entries.get
  rw [onlyFirst, List.foldl_cons, List.foldl_cons, List.foldl_cons,
    List.foldl_nil, Entries.lookup?_insert_of_ne hkey (by simp [Value.face?]),
    Entries.lookup?_insert_of_ne hkey (by simp [Value.face?]),
    Entries.lookup?_insert_self hkey]
  rfl

include hname hface hid

/-- The records of a query by id are of the named element. -/
private theorem ensures_all_byId {es : Entries}
    (hwhere : Entries.field "where" es = Query.byId m id) :
    Ensures (Facing name m g) (all (some name) (.map es) .null) fun v =>
      ∃ rs, v = .list rs ∧ id.isScalar = true ∧
        ∀ r ∈ rs, ∃ h, target m id g = some h ∧ IsRecordOf m g h r := by
  have hgiven : (Value.map es).isGiven = true := by
    cases es with
    | nil => cases hwhere
    | cons e es => rfl
  have hquery : ∀ steps,
      Build.traversalFrom [] (Query.query m (.map es)) = .ok steps →
      Graph.readsOnly steps = true ∧
        ∀ items, g.evaluate steps = (.ok items, g) →
          ∃ rows : List Entries, items = rows.map .row := by
    intro steps hsteps
    obtain ⟨hscalar, keys, trims, htrims, rfl⟩ :=
      Query.query_byId hface hid hwhere hsteps
    have hreads : Graph.readsOnly (.call .elementMap keys :: trims)
        = true := by
      simp [Graph.readsOnly, Graph.changes, Graph.runsChildren,
        readsOnly_trims htrims]
    refine ⟨readsOnly_byId hreads, fun items hitems => ?_⟩
    obtain ⟨-, rows, hrows, -⟩ := evaluate_query_byId hscalar htrims hitems
    exact ⟨rows, hrows⟩
  intro c hc
  obtain ⟨hafter, hyields⟩ := ensures_all hname (if_pos hgiven) hquery c hc
  refine ⟨hafter, fun v hv => ?_⟩
  obtain ⟨steps, rows, fields, rs, hsteps, hgo, -, hrs, rfl⟩ := hyields v hv
  obtain ⟨hscalar, keys, trims, htrims, rfl⟩ :=
    Query.query_byId hface hid hwhere hsteps
  refine ⟨rs, rfl, hscalar, fun r hr => ?_⟩
  -- back from the record to the row, and from the row to the element
  obtain ⟨row, hrow, hrecord⟩ := yields_mapM _ _ rs hrs r hr
  obtain ⟨item, hofRow, hrecord⟩ := bind_eq_ok hrecord
  obtain ⟨-, found, hfound, hrows⟩ := evaluate_query_byId hscalar htrims hgo
  obtain rfl : rows = found := Graph.rows_inj hfound
  obtain ⟨h, htarget, hof⟩ := hrows row hrow
  exact ⟨h, htarget, keys, row, fields, item, hof, hofRow, hrecord⟩

/-- What is found by id is the record of the element. -/
private theorem ensures_findById (filter : Value) :
    Ensures (Facing name m g) (findById (some name) id filter) fun r =>
      id.isScalar = true ∧
        (r = .null ∨ ∃ h, target m id g = some h ∧ IsRecordOf m g h r) := by
  refine (ensures_ask (Q := fun found => found = m)
    fun c hc x hx => Except.ok.inj (hx.symm.trans hc.model)).bind
      fun found hfound => ?_
  rw [hfound]
  refine (ensures_check (Q := fun _ => True) fun _ _ => trivial).bind
    fun _ _ => ?_
  refine (ensures_check fun filtered h => field_where h).bind
    fun filtered h => ?_
  obtain ⟨es, rfl, hwhere⟩ := h
  refine (ensures_all_byId hname hface hid hwhere).bind fun v hv =>
    ensures_pure ?_
  obtain ⟨rs, rfl, hscalar, hrs⟩ := hv
  refine ⟨hscalar, ?_⟩
  cases rs with
  | nil => exact .inl rfl
  | cons r rs => exact .inr (hrs r List.mem_cons_self)

omit hname hface hid

-- =================================================================== changes

/-- As long as the model is found by its name it stays so, and the graphs
before and after are in a relation. -/
def Changes (model : Option String) (m : Model) (R : Graph → Graph → Prop)
    (c c' : Connector) :
    Prop :=
  c.registry.get model = .ok m →
    c'.registry.get model = .ok m ∧ R c.server.graph c'.server.graph

variable {model : Option String} {o : Options} {R : Graph → Graph → Prop}

/-- That only the element changes is kept by all that a frame leaves open. -/
private theorem frame_changes (hR : Run.Steady R) :
    Frame (Changes model m R) where
  refl _ h := ⟨h, hR.refl _⟩
  trans h₁ h₂ h := ⟨(h₂ (h₁ h).1).1, hR.trans (h₁ h).2 (h₂ (h₁ h).1).2⟩
  note _ _ _ _ h := ⟨h, hR.refl _⟩
  advance _ _ h := ⟨h, hR.refl _⟩

/-- A count changes neither models nor the graph. -/
private theorem changes_count (hR : Run.Steady R) (filter : Value) :
    Keeps (Changes model m R) (count model filter) := by
  intro c hmodel
  have hsame : (count model filter c).2.server.graph = c.server.graph :=
    sameGraph_count model filter c
  rw [(settled_count model filter c).1, hsame]
  exact ⟨hmodel, hR.refl _⟩

/-- A submission changes the graph as its steps do. -/
private theorem changes_submitOnce (hR : Run.Steady R) {steps : List Step}
    (hsteps : ∀ g, R g (g.evaluate steps).2) (mode : Mode) :
    Keeps (Changes model m R) (submitOnce steps mode) := by
  intro c hmodel
  refine ⟨hmodel, ?_⟩
  show R c.server.graph (c.server.submit steps mode).2.graph
  unfold Server.submit
  split
  · exact hR.refl _
  · exact hR.refl _
  · have hgo := hsteps c.server.graph
    unfold Server.evaluate
    rcases hrun : c.server.graph.evaluate steps with ⟨e | items, g'⟩
    · rw [hrun] at hgo
      exact hgo
    · rw [hrun] at hgo
      exact hgo

/-- A change waits under a transaction; outside of one it does what its
traversal does. -/
private theorem changes_mutate (hR : Run.Steady R)
    {builder : Model → Build Unit}
    (hbuilder : ∀ steps, Build.traversalFrom [] (builder m) = .ok steps →
      ∀ g, R g (g.evaluate steps).2) (mode : Mode) :
    Keeps (Changes model m R) (mutate model builder o mode) := by
  have hframe : Frame (Changes model m R) := frame_changes hR
  -- joined, the call only stores steps; alone, it submits the built traversal
  cases ho : o.joined with
  | some tx =>
      refine (keeps_build hframe (fun c => ?_) _ _).bind hframe
        fun steps c => ?_
      · rw [source_joined ho]
        cases c.transactions.pending tx with
        | error e => exact hframe.refl c
        | ok p => cases p <;> exact hframe.refl c
      · rw [execute_joined ho]
        cases c.transactions.store tx (some steps) with
        | error e => exact hframe.refl c
        | ok stored => exact fun hmodel => ⟨hmodel, hR.refl _⟩
  | none =>
      intro c hmodel
      have hbuild : build model (source o) builder c
          = (Build.traversalFrom [] (builder m), c) := by
        unfold source
        rw [ho]
        show (ask (fun c => c.registry.get model) >>= fun m =>
          check (Build.traversalFrom [] (builder m))) c = _
        rw [bind_apply, ask, hmodel]
        rfl
      unfold mutate
      cases hsteps : Build.traversalFrom [] (builder m) with
      | error e =>
          rw [hsteps] at hbuild
          rw [bind_apply_error hbuild]
          exact hframe.refl c hmodel
      | ok steps =>
          rw [hsteps] at hbuild
          rw [bind_apply_ok hbuild]
          exact keeps_execute hframe
            (changes_submitOnce hR (hbuilder steps hsteps) mode) ho
              model c hmodel

/-- A destruction changes it as the dropping does, which follows a count. -/
private theorem changes_destroyById (hR : Run.Steady R)
    (hdrop : ∀ steps, Build.traversalFrom [] (Query.drop m (Query.byId m id))
      = .ok steps →
      ∀ g, R g (g.evaluate steps).2) (options : Value) :
    Keeps (Changes model m R) (destroyById model id options) := by
  have hframe : Frame (Changes model m R) := frame_changes hR
  intro c hmodel
  have hdestroy : Keeps (Changes model m R)
      (destroyAll model (Query.byId m id) options) := by
    rw [destroyAll_eq]
    refine (keeps_check hframe _).bind hframe fun o => ?_
    refine (changes_count hR _).bind hframe fun matched => ?_
    split
    · exact keeps_pure hframe _
    · refine Keeps.observed hframe ?_ _ _
      exact (changes_mutate hR hdrop .iterate).bind hframe fun _ =>
        keeps_pure hframe _
  unfold destroyById
  rw [bind_apply_ok (show ask (fun c => c.registry.get model) c
      = (.ok m, c) by rw [ask, hmodel])]
  exact ((keeps_check hframe _).bind hframe fun _ => hdestroy) c hmodel

/-- A replacement as the steps that are built for it do. -/
private theorem changes_replaceById (hR : Run.Steady R) {record : Value}
    (hreplace : ∀ steps,
      Build.traversalFrom [] (Query.replace m id record) = .ok steps →
      ∀ g, R g (g.evaluate steps).2) (options : Value) :
    Keeps (Changes model m R) (replaceById model id record options) := by
  have hframe : Frame (Changes model m R) := frame_changes hR
  rw [replaceById_eq]
  refine (keeps_check hframe _).bind hframe fun _ => ?_
  refine (keeps_check hframe _).bind hframe fun o => ?_
  refine Keeps.observed hframe ?_ _ _
  exact (changes_mutate hR hreplace .iterate).bind hframe fun _ =>
    keeps_pure hframe _

/-- An act that succeeds has got through its first part. -/
theorem fst_bind_eq_ok {α β : Type} {act : Act α} {k : α → Act β}
    {c : Connector} {b : β} (h : ((act >>= k) c).1 = .ok b) :
    ∃ a c', act c = (.ok a, c') ∧ (k a c').1 = .ok b := by
  rw [bind_apply] at h
  rcases hact : act c with ⟨e | a, c'⟩
  · rw [hact] at h
    cases h
  · rw [hact] at h
    exact ⟨a, c', rfl, h⟩

/-- Where a check and what follows have a result, both have one. -/
private theorem fst_check_bind_eq_ok {α β : Type} {r : Checked α}
    {k : α → Act β}
    {c : Connector} {b : β} (h : ((check r >>= k) c).1 = .ok b) :
    ∃ a, r = .ok a ∧ (k a c).1 = .ok b := by
  obtain ⟨a, c', hcheck, hk⟩ := fst_bind_eq_ok h
  obtain ⟨hr, hc⟩ := Prod.mk.inj hcheck
  exact ⟨a, hr, hc ▸ hk⟩

/-- What a destruction answers is what it has counted at first. -/
private theorem yields_destroyAll (model : Option String)
    (filter options : Value) (c : Connector) :
    Yields (destroyAll model filter options c).1 fun r =>
      ∃ n, (count model filter c).1 = .ok n ∧ r = counted (.int n) := by
  intro r hr
  rw [destroyAll_eq] at hr
  obtain ⟨o, -, hr⟩ := fst_check_bind_eq_ok hr
  obtain ⟨n, c', hcount, hr⟩ := fst_bind_eq_ok hr
  refine ⟨n, congrArg Prod.fst hcount, ?_⟩
  by_cases hn : n = 0
  · simp only [hn, if_true] at hr
    rw [hn]
    exact (Except.ok.inj hr).symm
  · simp only [hn, if_false, observed_fst] at hr
    obtain ⟨v, c'', -, hr⟩ := fst_bind_eq_ok hr
    exact (Except.ok.inj hr).symm

/-- A change that succeeds has a traversal. -/
private theorem yields_mutate {builder : Model → Build Unit}
    (happends : ∀ m, (builder m).Appends) (mode : Mode) {c : Connector}
    (hmodel : c.registry.get model = .ok m) :
    Yields (mutate model builder o mode c).1 fun _ =>
      ∃ steps, Build.traversalFrom [] (builder m) = .ok steps := by
  intro v hv
  have hsource : ∃ start, source o c = (start, c) := by
    cases ho : o.joined with
    | none => exact ⟨.ok [], by unfold source; rw [ho]; rfl⟩
    | some tx =>
        rw [source_joined ho]
        cases c.transactions.pending tx with
        | error e => exact ⟨_, rfl⟩
        | ok p => cases p <;> exact ⟨_, rfl⟩
  obtain ⟨start, hstart⟩ := hsource
  unfold mutate build at hv
  obtain ⟨built, c', hbuilt, -⟩ := fst_bind_eq_ok hv
  obtain ⟨own, c'', hown, hbuilt⟩ := fst_bind_eq_ok (congrArg Prod.fst hbuilt)
  obtain ⟨-, rfl⟩ := Prod.mk.inj (hstart.symm.trans hown)
  have hask : ask (fun c => c.registry.get model) c = (.ok m, c) := by
    rw [ask, hmodel]
  rw [bind_apply_ok hask] at hbuilt
  change Build.traversalFrom own (builder m) = .ok built at hbuilt
  rw [Build.traversalFrom_eq_append (happends m)] at hbuilt
  cases hsteps : Build.traversalFrom [] (builder m) with
  | ok steps => exact ⟨steps, rfl⟩
  | error e =>
      rw [hsteps] at hbuilt
      cases hbuilt

/-- So does a replacement. -/
private theorem yields_replaceById (id record options : Value) {c : Connector}
    (hmodel : c.registry.get model = .ok m) :
    Yields (replaceById model id record options c).1 fun _ =>
      ∃ steps, Build.traversalFrom [] (Query.replace m id record)
          = .ok steps := by
  intro v hv
  rw [replaceById_eq] at hv
  obtain ⟨_, -, hv⟩ := fst_check_bind_eq_ok hv
  obtain ⟨o, -, hv⟩ := fst_check_bind_eq_ok hv
  rw [observed_fst] at hv
  obtain ⟨w, c', hmutate, -⟩ := fst_bind_eq_ok hv
  exact yields_mutate (Query.appends_replace · id record) .iterate hmodel w
    (congrArg Prod.fst hmutate)

/-- A destruction by id counts the element that the id names. -/
private theorem counted_destroyById (hname : name ≠ "")
    (hface : m.idField.face? = some f) (hid : isConstraint m id = false)
    {c : Connector} (hc : Facing name m g c) {options r : Value}
    (hr : (destroyById (some name) id options c).1 = .ok r) :
    id.isScalar = true ∧ r = counted (.int (target m id g).toList.length) := by
  have hmodel : ask (fun c => c.registry.get (some name)) c = (.ok m, c) := by
    rw [ask, hc.model]
  unfold destroyById at hr
  rw [bind_apply_ok hmodel] at hr
  obtain ⟨_, -, hr⟩ := fst_check_bind_eq_ok hr
  obtain ⟨n, hn, rfl⟩ := yields_destroyAll _ _ _ c r hr
  obtain ⟨hscalar, rfl⟩ := (ensures_count_byId hname hface hid c hc).2 n hn
  exact ⟨hscalar, rfl⟩

-- ====================================================================== main

/-- Of the elements of the model's kind none has come, and only one may have
gone or changed. -/
def KeepsOthers (m : Model) (target : Option Handle) (g g' : Graph) : Prop :=
  (stored m g').Sublist (stored m g) ∧
    ∀ e ∈ stored m g,
    target ≠ some e.2 → e ∈ stored m g' ∧ g'.element e.2 = g.element e.2

/-- A change by an id keeps the others if its traversals, which there are for
scalars only, spare them. -/
private theorem keepsOthers_of_changes {c : Connector}
    (hg : Graph.Sound [] c.server.graph)
    (hmodel : c.registry.get model = .ok m) {act : Act Value}
    {built : List Step → Prop}
    (hchanges : ∀ R,
      Run.Steady R → (∀ steps, built steps → ∀ g, R g (g.evaluate steps).2) →
      Keeps (Changes model m R) act)
    (hscalar : ∀ steps, built steps → id.isScalar = true)
    (hspares : ∀ steps, built steps → ∀ g,
        Spares m id g (g.evaluate steps).2) :
    KeepsOthers m (target m id c.server.graph) c.server.graph
        (act c).2.server.graph := by
  by_cases hid : id.isScalar = true
  · obtain ⟨-, hspared⟩ := hchanges _ (steady_spares m id) hspares c hmodel
    obtain ⟨-, hsub, hothers⟩ := hspared hg
    refine ⟨hsub, fun e he hne => hothers e he fun hsame => hne ?_⟩
    exact (target_eq_some_iff hg hid).mpr ⟨⟨e, he, rfl⟩, hsame⟩
  · -- nothing is built, so the graph stays
    have hsteady : Run.Steady fun g g' : Graph => g' = g :=
      ⟨fun _ => rfl, fun h h' => h'.trans h⟩
    obtain ⟨-, hsame⟩ :=
      hchanges _ hsteady (fun steps h => absurd (hscalar steps h) hid) c hmodel
    rw [hsame]
    exact ⟨.refl _, fun e he _ => ⟨he, rfl⟩⟩

/-- An operation by id reaches at most the element with that id.

The id may be anything but a condition (`Filter.isConstraint`), the primary key
is named by a scalar, and no field is named by the reserved key of ids or
stored under it. Then a search finds the element that the id names or nothing,
whether there is one is told by whether the id names one, a destruction counts
it and no more, and no destruction or replacement, under whatever options and
whatever comes of it, has any other element of the model's kind gone or
changed. What a scalar names is the element of the model with the same id,
which is an equal one unless both are one NaN. An id that is no scalar has
every operation fail. -/
theorem byId_reaches {c : Connector} (hg : c.server.graph.Reachable)
    (hreplies : c.server.replies = []) {name : String} (hname : name ≠ "")
    {m : Model} (hmodel : c.registry.get (some name) = .ok m) {f : Face}
    (hface : m.idField.face? = some f) (htype : Record.typeFor m .idKey = none)
    {id : Value} (hid : isConstraint m id = false) :
    let g := c.server.graph
    let target := target m id g
    (id.isScalar = true → ∀ h, target = some h ↔ (∃ e ∈ stored m g, e.2 = h) ∧
      (g.element h).label.equal m.label = true ∧
      (g.element h).id.same id = true) ∧
    (∀ filter r, (findById (some name) id filter c).1 = .ok r →
      id.isScalar = true ∧
      (r = .null ∨ ∃ h, target = some h ∧ IsRecordOf m g h r)) ∧
    (∀ r, (presence (some name) id c).1 = .ok r →
      id.isScalar = true ∧ r = .bool target.isSome) ∧
    (∀ options r, (destroyById (some name) id options c).1 = .ok r →
      id.isScalar = true ∧ r = counted (.int target.toList.length)) ∧
    (∀ record options r,
      (replaceById (some name) id record options c).1 = .ok r →
      id.isScalar = true) ∧
    ∀ record options,
      KeepsOthers m target g
        (destroyById (some name) id options c).2.server.graph ∧
      KeepsOthers m target g
        (replaceById (some name) id record options c).2.server.graph := by
  intro g target
  have hfacing : Facing name m g c := ⟨hmodel, rfl, hreplies⟩
  -- finding, presence, destroying and replacing, each by its own lemma; the
  -- last two also spare the other elements
  refine ⟨fun hscalar h => target_eq_some_iff hg.sound hscalar,
    fun filter r hr => ?_, fun r hr => ?_, fun options r hr => ?_,
    fun record options r hr => ?_, fun record options => ⟨?_, ?_⟩⟩
  · exact (ensures_findById hname hface hid filter c hfacing).2 r hr
  · exact (ensures_presence hname hface hid c hfacing).2 r hr
  · exact counted_destroyById hname hface hid hfacing hr
  · obtain ⟨steps, hsteps⟩ := yields_replaceById id record options hmodel r hr
    exact (Query.replace_byId hface hid htype hsteps).1
  · refine keepsOthers_of_changes hg.sound hmodel
      (fun R hR hdrop => changes_destroyById hR hdrop options)
      (fun steps hsteps => ?_) fun steps hsteps g => ?_
    · exact (Query.drop_byId hface hid hsteps).1
    · obtain ⟨hscalar, rfl⟩ := Query.drop_byId hface hid hsteps
      exact spares_evaluate_drop hscalar
  · refine keepsOthers_of_changes hg.sound hmodel
      (fun R hR hreplace => changes_replaceById hR hreplace options)
      (fun steps hsteps => ?_) fun steps hsteps g => ?_
    · exact (Query.replace_byId hface hid htype hsteps).1
    · obtain ⟨hscalar, writes, hwrites, rfl⟩ :=
        Query.replace_byId hface hid htype hsteps
      exact spares_evaluate_replace hscalar hwrites

/-- A connector to a server with three vertices, two of which are of the
model. -/
def sampleConnector : Connector where
  registry := Registry.empty.register sampleModel
  transactions := ⟨1000, 0, [], []⟩
  server := .ofGraph sampleGraph
  clock := 0
  sink := .recording
  openable := false
  effects := []

/-- Ann is destroyed by her id, and Bob and the pet are left. -/
theorem byId_reaches_sample :
    (destroyById (some "Person") (.text "p1") .null sampleConnector).1
        = .ok (counted (.int 1)) ∧
      KeepsOthers sampleModel (some 0) sampleGraph
        (destroyById (some "Person") (.text "p1") .null
          sampleConnector).2.server.graph := by
  have htarget : target sampleModel (.text "p1") sampleGraph = some 0 := by
    decide +kernel
  have hdone :
      (destroyById (some "Person") (.text "p1") .null sampleConnector).1.isOk
        = true := by
    decide +kernel
  obtain ⟨-, -, -, hcounts, -, hkeeps⟩ :=
    byId_reaches (c := sampleConnector) sampleGraph_reachable rfl
      (show "Person" ≠ "" by decide) rfl rfl rfl
    (show isConstraint sampleModel (.text "p1") = false from rfl)
  rw [show target sampleModel (.text "p1") sampleConnector.server.graph
    = some 0 from htarget] at hcounts hkeeps
  cases hrun :
      (destroyById (some "Person") (.text "p1") .null sampleConnector).1 with
  | error e => rw [hrun] at hdone; cases hdone
  | ok r =>
      exact ⟨by rw [(hcounts .null r hrun).2]; rfl, (hkeeps .null .null).1⟩

-- An empty mapping is a condition that every vertex of the model meets.
example :
    (match (destroyById (some "Person") (.map []) .null sampleConnector).1 with
    | .ok (.map [(_, .int n)]) => some n
    | _ => none) = some 2 := by
  decide +kernel

end Act

end GraphMapper

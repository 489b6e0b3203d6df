/-
Runs on a graph: what comes of each way to put them together, and runs that
only read.

A run that asks leaves the graph, and so does everything that is put together
from such runs (`Run.Reads`). Which steps only read is plain from their names
(`Graph.readsOnly`): dropping, adding, linking and writing are the steps that
do not. What stands as an argument of other steps counts when it is run, that
is under `or`, `and` and `sideEffect`.

# One induction for all interpreters

A traversal runs other traversals: steps hold values, and a value may be a
traversal of its own. So each fact about all runs is an induction over steps,
arguments and rows of arguments at once. It is made here only once, for any
property of runs that is kept by putting runs together (`Composes`) and holds
of each single step, if it does of the arguments of the step (`Sustains.run`).
Which steps and arguments are meant can be restricted (`Admission`), as long as
the restriction reaches into the arguments.

That runs only read, that none of them rejects a value and that a graph stays
keyed are all cases of it.

Main statement: `run_reads`.

Chain: `Graph.Evaluator` alone; used by `Graph.Rows`, `Graph.Safety`,
`Graph.Chaining`, `Graph.Refusals` and `Graph.Properties`.
-/
import GraphMapper.Graph.Evaluator

namespace GraphMapper

namespace Run

variable {α β : Type}

/-- What comes of a run on a graph, and the graph after it. -/
def on (r : Run α) (g : Graph) : Checked α × Graph := (ExceptT.run r).run g

/-- To answer leaves the graph as it is. -/
@[simp] theorem on_pure (a : α) (g : Graph) : on (pure a) g = (.ok a, g) := rfl

/-- So does to fail. -/
@[simp] theorem on_fail (e : Failure) (g : Graph) :
    on (fail e : Run α) g = (.error e, g) := rfl

/-- So does a slip. -/
@[simp] theorem on_slip (s : Slip) (g : Graph) :
    on (slip s : Run α) g = (.error (.slip s), g) := rfl

/-- To modify the graph has no result. -/
@[simp] theorem on_modify (f : Graph → Graph) (g : Graph) :
    on (modify f : Run Unit) g = (.ok (), f g) := rfl

/-- To change it may have one. -/
@[simp] theorem on_change (f : Graph → Graph × α) (g : Graph) :
    on (change f) g = (.ok (f g).2, (f g).1) := rfl

/-- A run that goes on after another one starts with the graph that this has
left. -/
theorem on_bind (r : Run α) (k : α → Run β) (g : Graph) :
    on (r >>= k) g
      = match r.on g with
        | (.ok a, g) => (k a).on g
        | (.error e, g) => (.error e, g) := by
  unfold on
  simp only [ExceptT.run_bind, StateT.run_bind]
  show (match (ExceptT.run r).run g with | (out, g) => _) = _
  cases (ExceptT.run r).run g with
  | mk out g' => cases out <;> rfl

/-- What follows a run that succeeds goes on from its graph. -/
theorem on_bind_ok {r : Run α} {k : α → Run β} {g g' : Graph} {a : α}
    (h : r.on g = (.ok a, g')) :
    on (r >>= k) g = (k a).on g' := by
  rw [on_bind, h]

/-- Nothing follows a run that fails. -/
theorem on_bind_error {r : Run α} {k : α → Run β} {g g' : Graph} {e : Failure}
    (h : r.on g = (.error e, g')) : on (r >>= k) g = (.error e, g') := by
  rw [on_bind, h]

/-- To ask leaves the graph as it is, whatever the answer. -/
@[simp] theorem on_ask (f : Graph → Checked α) (g : Graph) :
    on (ask f) g = (f g, g) := by
  unfold ask
  rw [on_bind_ok (show (get : Run Graph).on g = (.ok g, g) from rfl)]
  cases f g <;> rfl

-- ========================================================= putting together

/-- A property of runs that no failure breaks and that runs have together if
each of them has it. -/
structure Composes (P : (α : Type) → Run α → Prop) : Prop where
  pure : ∀ {α : Type} (a : α), P α (pure a)
  slip : ∀ {α : Type} (s : Slip), P α (slip s)
  bind : ∀ {α β : Type} {r : Run α} {k : α → Run β},
    P α r → (∀ a, P β (k a)) → P β (r >>= k)

variable {P : (α : Type) → Run α → Prop}

/-- To keep some items asks for each of them in turn. -/
theorem Composes.keep (h : Composes P) {p : Item → Run Bool}
    {items : List Item} (hp : ∀ item ∈ items, P Bool (p item)) :
    P (List Item) (keep p items) := by
  induction items with
  | nil => exact h.pure _
  | cons item items ih =>
      have hrest := ih fun i hi => hp i (List.mem_cons_of_mem item hi)
      exact h.bind (hp item List.mem_cons_self) fun _ =>
        h.bind hrest fun _ => h.pure _

/-- To do something with each item does it in turn. -/
theorem Composes.each (h : Composes P) {f : Item → Run α}
    {items : List Item} (hf : ∀ item ∈ items, P α (f item)) :
    P (List α) (each f items) := by
  induction items with
  | nil => exact h.pure _
  | cons item items ih =>
      have hrest := ih fun i hi => hf i (List.mem_cons_of_mem item hi)
      exact h.bind (hf item List.mem_cons_self) fun _ =>
        h.bind hrest fun _ => h.pure _

-- ========================================================= before and after

/-- A relation between graphs before and after that can be composed. -/
structure Steady (R : Graph → Graph → Prop) : Prop where
  refl : ∀ g, R g g
  trans : ∀ {a b c}, R a b → R b c → R a c

variable {R : Graph → Graph → Prop}

/-- The relation holds between the graph before the run and the one after it,
also when it fails. -/
def Within (R : Graph → Graph → Prop) (r : Run α) : Prop :=
  ∀ g, R g (r.on g).2

/-- To answer changes nothing, and a relation that is steady holds then. -/
theorem within_pure (h : Steady R) (a : α) : Within R (pure a : Run α) :=
  fun g => h.refl g

/-- Neither does to fail. -/
theorem within_fail (h : Steady R) (e : Failure) :
    Within R (fail e : Run α) := fun g => h.refl g

/-- Neither does to ask. -/
theorem within_ask (h : Steady R) (f : Graph → Checked α) :
    Within R (ask f) := by
  intro g
  rw [on_ask]
  exact h.refl g

/-- What follows has to be looked at only for what the first run gives. -/
theorem Within.bind_of (h : Steady R) {r : Run α} {k : α → Run β}
    (hr : Within R r)
    (hk : ∀ a g g', r.on g = (.ok a, g') → Within R (k a)) :
    Within R (r >>= k) := by
  intro g
  have hg := hr g
  rw [on_bind]
  rcases hrun : r.on g with ⟨e | a, g'⟩
  · rw [hrun] at hg
    exact hg
  · rw [hrun] at hg
    exact h.trans hg (hk a g g' hrun g')

/-- One run after the other relates the first graph to the last. -/
theorem Within.bind (h : Steady R) {r : Run α} {k : α → Run β}
    (hr : Within R r) (hk : ∀ a, Within R (k a)) : Within R (r >>= k) :=
  hr.bind_of h fun a _ _ _ => hk a

/-- So such a relation holds across whole runs if it does across parts. -/
theorem Steady.composes (h : Steady R) :
    Composes fun _ r => Within R r where
  pure := within_pure h
  slip s := within_fail h (.slip s)
  bind hr hk := hr.bind h hk

/-- So does a run for each item. -/
theorem within_each (h : Steady R) {f : Item → Run α} {items : List Item}
    (hf : ∀ item ∈ items, Within R (f item)) : Within R (each f items) :=
  h.composes.each hf

-- ================================================================= reading

/-- The run leaves the graph as it is. -/
def Reads (r : Run α) : Prop := ∀ g, (r.on g).2 = g

/-- That is the relation of a graph to itself alone. -/
theorem steady_same : Steady fun g g' => g' = g where
  refl _ := rfl
  trans h₁ h₂ := h₂.trans h₁

/-- Runs that read can be put together. -/
theorem composes_reads : Composes fun _ r => Reads r := steady_same.composes

/-- To ask is to read. -/
theorem reads_ask (f : Graph → Checked α) : Reads (ask f) :=
  within_ask steady_same f

end Run

namespace Graph

open Run

-- ============================================================ rows of steps

/-- Which steps are admitted: a class of steps, the rows of them, and the
arguments of those among them that run their arguments. Whatever an admitted
step runs is admitted as well. -/
structure Admission where
  step : StepName → List Value → Prop
  steps : List Step → Prop
  children : List Value → Prop
  first : ∀ {name args rest}, steps (.call name args :: rest) →
    step name args ∧ steps rest
  runs : ∀ {name args}, name ∈ [StepName.or, .and, .sideEffect, .to] →
    step name args → children args
  child : ∀ {v vs}, children (v :: vs) →
    (∀ own, v = .traversal own → steps own) ∧ children vs

/-- Every traversal is admitted. -/
def Admission.all : Admission where
  step _ _ := True
  steps _ := True
  children _ := True
  first _ := ⟨trivial, trivial⟩
  runs _ _ := trivial
  child _ := ⟨fun _ _ => trivial, trivial⟩

/-- Admitted steps have a property: those that stand for themselves, and the
parts of those that are run together with their neighbours or with other
traversals. -/
structure Sustains (A : Admission) (P : (α : Type) → Run α → Prop) :
    Prop where
  composes : Composes P
  perform : ∀ {name args}, A.step name args → ∀ items,
    P _ (perform name args items)
  sort : ∀ rest items, P _ (ask fun g => do g.sortAll (← sortKeys rest) items)
  start : ∀ {args}, A.step .addEdge args → ∀ item, P _ (startEdge args item)
  origin : ∀ edge, P _ (ask fun g => g.originOf edge)
  link : ∀ {args}, A.step .to args → ∀ edge found, P _ (link edge found)
  enter : ∀ {name args}, name ∈ [StepName.addEdge, .to] → A.step name args →
    ∀ edges, P _ (enterEdges edges)

variable {A : Admission} {P : (α : Type) → Run α → Prop}

mutual

/-- What every admitted step has, whole rows of them have, at whatever they
stand behind. -/
theorem Sustains.run (h : Sustains A P) : ∀ (steps : List Step),
    A.steps steps → ∀ (phase : Phase) (items : List Item),
      P _ (run phase steps items)
  | [], _, phase, items => by
      cases phase <;> exact h.composes.pure items
  | .call name args :: rest, hsteps, phase, items => by
      obtain ⟨hfirst, hrest⟩ := A.first hsteps
      have hplain : ∀ next, P _ (Graph.run .plain rest next) := fun next =>
        h.run rest hrest .plain next
      have hstep : P _ (Graph.perform name args items >>= fun next =>
          Graph.run .plain rest next) :=
        h.composes.bind (h.perform hfirst items) hplain
      -- four steps run their arguments, and two are told by their place
      cases name
      case or =>
          have hargs := A.runs (by simp) hfirst
          exact h.composes.bind
            (h.composes.keep fun item _ => h.anyChild args hargs item) hplain
      case and =>
          have hargs := A.runs (by simp) hfirst
          exact h.composes.bind
            (h.composes.keep fun item _ => h.allChildren args hargs item)
            hplain
      case sideEffect =>
          have hargs := A.runs (by simp) hfirst
          have hgo : P _ (each (fun item => Graph.allChildren args item) items
              >>= fun _ => Graph.run .plain rest items) :=
            h.composes.bind
              (h.composes.each fun item _ => h.allChildren args hargs item)
              fun _ => hplain items
          simp only [Graph.run]
          split
          · exact h.composes.bind (h.composes.slip _) fun _ => hgo
          · exact hgo
      case order =>
          exact h.composes.bind (h.sort rest items) fun sorted =>
            h.run rest hrest .sorted sorted
      case orderBy =>
          cases phase
          case sorted => exact h.run rest hrest .sorted items
          all_goals exact hstep
      case addEdge =>
          simp only [Graph.run]
          refine h.composes.bind
            (h.composes.each fun item _ => h.start hfirst item) fun edges => ?_
          split
          · exact h.run rest hrest .linking edges
          · exact h.composes.bind (h.enter (by simp) hfirst edges) fun _ =>
              hplain edges
      case «to» =>
          have hargs := A.runs (by simp) hfirst
          cases phase
          case linking =>
              refine h.composes.bind (h.composes.each fun edge _ =>
                h.linkBy hfirst args hargs edge) fun _ => ?_
              exact h.composes.bind (h.enter (by simp) hfirst items) fun _ =>
                hplain items
          all_goals exact hstep
      all_goals cases phase <;> exact hstep

/-- What the steps sustain, an argument that is a traversal sustains. -/
theorem Sustains.child (h : Sustains A P) : ∀ (v : Value),
    (∀ own, v = .traversal own → A.steps own) → ∀ item,
      P _ (Graph.child v item)
  | .traversal steps, hv, item => h.run steps (hv steps rfl) .plain [item]
  | .null, _, _ | .bool _, _, _ | .int _, _, _ | .float _, _, _
  | .text _, _, _ | .bytes _, _, _ | .date _, _, _ | .dateTime _, _, _
  | .list _, _, _ | .tuple _, _, _ | .set _, _, _ | .map _, _, _
  | .symbol _, _, _ | .datatype _, _, _ | .vertex _ _, _, _ | .edge .., _, _
  | .vertexProperty .., _, _ | .property .., _, _ | .path _, _, _
  | .traverser _, _, _ | .predicate .., _, _ | .foreign _ _, _, _ =>
      h.composes.slip _

/-- So does to look for one of the arguments that gives something. -/
theorem Sustains.anyChild (h : Sustains A P) : ∀ (vs : List Value),
    A.children vs → ∀ item, P _ (Graph.anyChild vs item)
  | [], _, _ => h.composes.pure _
  | v :: vs, hvs, item => by
      refine h.composes.bind (h.child v (A.child hvs).1 item) fun found => ?_
      split
      · exact h.anyChild vs (A.child hvs).2 item
      · exact h.composes.pure _

/-- So does to go through all of them. -/
theorem Sustains.allChildren (h : Sustains A P) : ∀ (vs : List Value),
    A.children vs → ∀ item, P _ (Graph.allChildren vs item)
  | [], _, _ => h.composes.pure _
  | v :: vs, hvs, item => by
      refine h.composes.bind (h.child v (A.child hvs).1 item) fun found => ?_
      split
      · exact h.composes.pure _
      · exact h.allChildren vs (A.child hvs).2 item

/-- So does to look for the other end of an edge. -/
theorem Sustains.linkBy (h : Sustains A P) {whole : List Value}
    (hto : A.step .to whole) : ∀ (vs : List Value), A.children vs → ∀ edge,
      P _ (Graph.linkBy vs edge)
  | [], _, _ => h.composes.slip _
  | v :: vs, hvs, edge => by
      refine h.composes.bind (h.origin edge) fun origin => ?_
      exact h.composes.bind (h.child v (A.child hvs).1 origin) fun found =>
        h.link hto edge found

end

-- =========================================================== steps that read

/-- The steps that change the graph. -/
def changes : StepName → Bool
  | .drop | .addVertex | .addEdge | .to | .property => true
  | _ => false

/-- The steps that run their arguments. -/
def runsChildren : StepName → Bool
  | .or | .and | .sideEffect => true
  | _ => false

mutual

/-- No step changes the graph, nor does a traversal that one of them runs. -/
def readsOnly : List Step → Bool
  | [] => true
  | .call name args :: rest =>
    !changes name && (!runsChildren name || childrenRead args) &&
      readsOnly rest
termination_by structural steps => steps

/-- Arguments that are traversals only read. -/
def childrenRead : List Value → Bool
  | [] => true
  | v :: vs => childReads v && childrenRead vs
termination_by structural vs => vs

/-- Whether an argument only reads. -/
def childReads : Value → Bool
  | .traversal steps => readsOnly steps
  | _ => true
termination_by structural v => v

end

/-- Steps behind each other only read if both parts do. -/
theorem readsOnly_append (s t : List Step) :
    readsOnly (s ++ t) = (readsOnly s && readsOnly t) := by
  induction s with
  | nil => rw [List.nil_append, readsOnly, Bool.true_and]
  | cons step s ih =>
      obtain ⟨name, args⟩ := step
      simp only [List.cons_append, readsOnly, ih, Bool.and_assoc]

/-- The steps that only read, with the traversals that they run. -/
def Admission.reading : Admission where
  step name args := changes name = false ∧
    (runsChildren name = true → childrenRead args = true)
  steps steps := readsOnly steps = true
  children vs := childrenRead vs = true
  first {name args rest} h := by
    simp only [readsOnly, Bool.and_eq_true, Bool.not_eq_true',
      Bool.or_eq_true] at h
    obtain ⟨⟨hname, hargs⟩, hrest⟩ := h
    exact ⟨⟨hname, fun hruns => hargs.resolve_left (by simp [hruns])⟩, hrest⟩
  runs {name args} hname h := by
    obtain ⟨hreads, hargs⟩ := h
    simp only [List.mem_cons, List.not_mem_nil, or_false] at hname
    rcases hname with rfl | rfl | rfl | rfl
    · exact hargs rfl
    · exact hargs rfl
    · exact hargs rfl
    · cases hreads
  child {v vs} h := by
    simp only [childrenRead, Bool.and_eq_true] at h
    refine ⟨fun own hown => ?_, h.2⟩
    subst hown
    simpa [childReads] using h.1

/-- Steps that stand for themselves read unless their name tells
otherwise. -/
theorem reads_perform {name : StepName} (h : changes name = false)
    (args : List Value) (items : List Item) :
    Reads (perform name args items) := by
  have hread := composes_reads
  have hsource : ∀ index ids, Reads (source index ids items) :=
    fun index ids => hread.bind (hread.each fun _ _ => reads_ask _) fun _ =>
      hread.pure _
  unfold perform
  split
  · exact hsource _ _
  · exact hsource _ _
  · exact hread.keep fun _ _ => reads_ask _
  · exact hread.keep fun _ _ => reads_ask _
  · exact hread.pure items
  · exact hread.each fun _ _ => reads_ask _
  · exact hread.bind (reads_ask _) fun _ => hread.pure _
  · exact hread.bind (reads_ask _) fun _ => hread.pure _
  · exact hread.pure _
  · exact hread.pure _
  · exact absurd h (by decide)
  · exact absurd h (by decide)
  · exact absurd h (by decide)
  · exact hread.bind (hread.each fun _ _ => reads_ask _) fun _ => hread.pure _
  all_goals exact within_fail steady_same _

/-- Steps that only read, by their names, do not change the graph. -/
theorem sustains_reads : Sustains .reading fun _ r => Reads r where
  composes := composes_reads
  perform h items := reads_perform h.1 _ items
  sort _ _ := reads_ask _
  start h _ := absurd h.1 (by decide)
  origin _ := reads_ask _
  link h _ _ := absurd h.1 (by decide)
  enter hname h _ := by
    simp only [List.mem_cons, List.not_mem_nil, or_false] at hname
    rcases hname with rfl | rfl <;> exact absurd h.1 (by decide)

/-- Steps that only read leave the graph as it is, whatever comes of them. -/
theorem run_reads (steps : List Step) (h : readsOnly steps = true)
    (phase : Phase) (items : List Item) : Reads (run phase steps items) :=
  sustains_reads.run steps h phase items

end Graph

end GraphMapper

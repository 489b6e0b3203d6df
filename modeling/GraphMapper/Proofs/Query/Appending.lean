/-
What an operation builds does not depend on the steps that it stands behind.

A builder gets at the steps built so far only by putting more behind them, so
it appends the same steps behind any others, and fails the same way
(`Build.Appends`). The traversal of an operation behind a source is therefore
that source followed by the traversal from nothing (`traversalFrom_eq_append`).

The traversal of a change begins afresh, at the elements of the model or with a
new vertex (`Build.Begins`), and so it can stand behind a `fold`.

# What a builder cannot do

A builder is a computation on a list of steps that it may only lengthen.
Nothing in its type says so, and it could ask how long the list is. That none
does is shown for the four ways to build and for what puts them together; every
operation is then gone through as it is defined.

Chain: `Graph.Chaining` says what a `fold` between two traversals does;
`Connector.Work` and `Query.Whole` use that a source may be taken away.
-/
import GraphMapper.Proofs.Failure.Checked
import GraphMapper.Proofs.Graph.Chaining
import GraphMapper.Query.Builder

namespace GraphMapper

namespace Build

variable {α β : Type}

-- ========================================================= running builders

/-- Nothing is built by giving something back. -/
@[simp] theorem runFrom_pure (a : α) (steps : List Step) :
    runFrom steps (pure a) = (.ok a, steps) := rfl

/-- Nor by deciding something. -/
@[simp] theorem runFrom_check (c : Checked α) (steps : List Step) :
    runFrom steps (check c) = (c, steps) := rfl

/-- A step goes behind the others. -/
@[simp] theorem runFrom_step (name : StepName) (args : List Value)
    (steps : List Step) :
    runFrom steps (step name args) = (.ok (), steps ++ [.call name args]) :=
      rfl

/-- And so does a row of steps. -/
@[simp] theorem runFrom_append (more steps : List Step) :
    runFrom steps (Query.append more) = (.ok (), steps ++ more) := rfl

/-- A builder that goes on after another one starts with the steps that this
has left. -/
theorem runFrom_bind (b : Build α) (k : α → Build β) (steps : List Step) :
    runFrom steps (b >>= k)
      = match b.runFrom steps with
        | (.ok a, built) => (k a).runFrom built
        | (.error e, built) => (.error e, built) := by
  unfold runFrom
  simp only [ExceptT.run_bind, StateT.run_bind]
  show (match (ExceptT.run b).run steps with | (out, built) => _) = _
  cases (ExceptT.run b).run steps with
  | mk out built => cases out <;> rfl

-- =============================================================== appending

/-- The builder does the same behind any steps: it appends the steps that it
builds from nothing, also when it fails. -/
def Appends (b : Build α) : Prop :=
  ∀ steps, b.runFrom steps = ((b.runFrom []).1, steps ++ (b.runFrom []).2)

/-- To append nothing is to append the same. -/
theorem appends_pure (a : α) : Appends (pure a : Build α) := by
  intro steps
  simp

/-- A decision does not look at what has been built. -/
theorem appends_check (c : Checked α) : Appends (check c) := by
  intro steps
  simp

/-- A step is appended whatever stands in front. -/
theorem appends_step (name : StepName) (args : List Value) :
    Appends (step name args) := by
  intro steps
  simp

/-- So is a row of steps. -/
theorem appends_append (more : List Step) : Appends (Query.append more) := by
  intro steps
  simp

/-- What appends the same steps part by part does so as a whole. -/
theorem Appends.bind {b : Build α} {k : α → Build β} (hb : Appends b)
    (hk : ∀ a, Appends (k a)) : Appends (b >>= k) := by
  intro steps
  rw [runFrom_bind, runFrom_bind, hb steps]
  cases hr : b.runFrom [] with
  | mk out built =>
      cases out with
      | error e => rfl
      | ok a =>
          show (k a).runFrom (steps ++ built)
            = (((k a).runFrom built).1, steps ++ ((k a).runFrom built).2)
          rw [hk a (steps ++ built), hk a built, List.append_assoc]

/-- And so does a row of builders. -/
theorem appends_forM {ι : Type} {f : ι → Build Unit} (hf : ∀ i, Appends (f i))
    (is : List ι) :
    Appends (is.forM f) := by
  induction is with
  | nil => exact appends_pure ()
  | cons i is ih => exact (hf i).bind fun _ => ih

/-- A traversal behind a source is the source with the traversal from nothing
behind it. -/
theorem traversalFrom_eq_append {b : Build Unit} (hb : Appends b)
    (steps : List Step) :
    traversalFrom steps b = (traversalFrom [] b).map (steps ++ ·) := by
  unfold traversalFrom
  rw [hb steps]
  cases hr : b.runFrom [] with
  | mk out built => cases out <;> rfl

-- ======================================================== beginning afresh

/-- The traversal that is built, if one is, begins afresh. -/
def Begins (b : Build Unit) : Prop :=
  ∀ steps, traversalFrom [] b = .ok steps → Graph.startsAfresh steps = true

/-- The first step decides whether a traversal begins afresh. -/
private theorem startsAfresh_append {s : List Step}
    (h : Graph.startsAfresh s = true) (t : List Step) :
    Graph.startsAfresh (s ++ t) = true := by
  cases s with
  | nil => exact absurd h (by decide)
  | cons step s =>
      obtain ⟨name, args⟩ := step
      cases name <;>
        first | rfl | exact absurd h (by simp [Graph.startsAfresh])

/-- What is decided before the first step has no part in how a traversal
begins. -/
theorem Begins.of_check {c : Checked α} {k : α → Build Unit}
    (hk : ∀ a, c = .ok a → Begins (k a)) : Begins (check c >>= k) := by
  intro steps h
  unfold traversalFrom at h
  rw [runFrom_bind, runFrom_check] at h
  cases hc : c with
  | error e =>
      rw [hc] at h
      cases h
  | ok a =>
      rw [hc] at h
      exact hk a hc steps h

/-- The steps that come first decide. -/
private theorem begins_append_bind {s : List Step}
    (hs : Graph.startsAfresh s = true)
    {k : Unit → Build Unit} (hk : Appends (k ())) :
    Begins (Query.append s >>= k) := by
  intro steps h
  unfold traversalFrom at h
  rw [runFrom_bind, runFrom_append] at h
  simp only [List.nil_append] at h
  rw [hk s] at h
  cases hr : (k ()).runFrom [] with
  | mk out built =>
      rw [hr] at h
      cases out with
      | error e => cases h
      | ok _ =>
          have hsteps : s ++ built = steps := Except.ok.inj h
          rw [← hsteps]
          exact startsAfresh_append hs built

end Build

-- =========================================================== the operations

namespace Filter

/-- A selection tests the label and then conditions, none when an id is sought,
at the elements of the model's kind. -/
theorem select_eq_ok {m : Model} {filter : Value} {steps : List Step}
    (h : select m filter = .ok steps) :
    ∃ ids conditions tests, lowerAll conditions = .ok tests
      ∧ steps = source m ids :: labelled m.label :: tests := by
  unfold select at h
  obtain ⟨sought, -, h⟩ := bind_eq_ok h
  cases sought with
  | some id => exact ⟨[id], [], [], rfl, (Except.ok.inj h).symm⟩
  | none =>
      obtain ⟨conditions, -, h⟩ := bind_eq_ok h
      obtain ⟨tests, htests, h⟩ := bind_eq_ok h
      exact ⟨[], conditions, tests, htests, (Except.ok.inj h).symm⟩

/-- A selection begins at the elements of the model's kind. -/
private theorem startsAfresh_select {m : Model} {filter : Value}
    {steps : List Step}
    (h : select m filter = .ok steps) : Graph.startsAfresh steps = true := by
  obtain ⟨ids, conditions, tests, -, rfl⟩ := select_eq_ok h
  unfold source
  split <;> rfl

end Filter

namespace Query

open Build

variable (m : Model)

/-- The selection of a filter is read off the filter, and then appended. -/
theorem appends_select (filter : Value) : Appends (select m filter) :=
  (appends_check _).bind fun _ => appends_append _

/-- What is written of a record is read off the record. -/
theorem appends_write (leftOut : List Value) (es : Entries) :
    Appends (Record.write m leftOut es) := by
  refine appends_forM (fun e => ?_) es
  unfold Record.writeEntry
  split
  · exact appends_pure ()
  · split
    · exact appends_step _ _
    · exact (appends_check _).bind fun _ => appends_step _ _

/-- A creation, part by part. -/
theorem appends_create (record : Value) : Appends (create m record) := by
  refine (appends_check _).bind fun data => ?_
  split
  · refine (appends_check _).bind fun origin => (appends_check _).bind
      fun target => ?_
    exact (appends_append _).bind fun _ => appends_write m _ _
  · exact (appends_step _ _).bind fun _ => appends_write m _ _

/-- A destruction is a selection and one more step. -/
theorem appends_drop (filter : Value) : Appends (drop m filter) :=
  (appends_select m filter).bind fun _ => appends_step _ _

/-- A replacement is a selection, a clearing, and what is written. -/
theorem appends_replace (id record : Value) :
    Appends (replace m id record) := by
  refine (appends_check _).bind fun data =>
    (appends_select m _).bind fun _ => ?_
  exact (appends_append _).bind fun _ => appends_write m _ _

/-- An update is a selection and what is written of it. -/
theorem appends_update (filter record : Value) :
    Appends (update m filter record) := by
  refine (appends_check _).bind fun data => (appends_check _).bind
    fun columns => ?_
  refine (appends_check _).bind fun entries =>
    (appends_select m filter).bind fun _ => ?_
  exact (appends_append _).bind fun _ => appends_step _ _

/-- Whatever follows a selection, the traversal begins with it. -/
private theorem begins_select_bind (filter : Value) {k : Unit → Build Unit}
    (hk : Appends (k ())) :
    Begins (select m filter >>= k) := by
  unfold select
  rw [bind_assoc]
  exact .of_check fun steps hsteps =>
    begins_append_bind (Filter.startsAfresh_select hsteps) hk

/-- A creation begins with a new vertex, or with the vertex that an edge starts
at. -/
theorem begins_create (record : Value) : Begins (create m record) := by
  refine .of_check fun data _ => ?_
  split
  · refine .of_check fun origin _ => .of_check fun target _ => ?_
    exact begins_append_bind rfl (appends_write m _ _)
  · exact begins_append_bind (s := [.call .addVertex [m.label]]) rfl
      (appends_write m _ _)

/-- A destruction begins at the elements of the model. -/
theorem begins_drop (filter : Value) : Begins (drop m filter) :=
  begins_select_bind m filter (appends_step _ _)

/-- And so does a replacement. -/
theorem begins_replace (id record : Value) : Begins (replace m id record) :=
  .of_check fun _ _ => begins_select_bind m _ ((appends_append _).bind fun _ =>
    appends_write m _ _)

/-- And so does an update, once its record has been read. -/
theorem begins_update (filter record : Value) :
    Begins (update m filter record) := by
  refine .of_check fun data _ => .of_check fun columns _ =>
    .of_check fun entries _ => ?_
  exact begins_select_bind m filter ((appends_append _).bind fun _ =>
    appends_step _ _)

end Query

end GraphMapper

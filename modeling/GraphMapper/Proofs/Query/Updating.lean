/-
What an update writes.

An update works out its writes before it selects anything: the entries of the
record under storage keys, in their stored form (`Query.changes`). Whatever is
wrong with the record is therefore reported before the filter is read, and what
is appended behind the selection is known beforehand (`traversalFrom_update`).

# Building in general form

A builder appends to a source, so its traversal from a source is the source,
what the first part appends and what the rest does. The lemmas on
`traversalFrom` say this for each way in which a builder goes on, with the
failures on the way, and later modules rewrite with them and do not unfold a
builder again.

Chain: `Query.Appending` for sources; `Query.Sorting` and `Query.Identity`
build on the equations here.
-/
import GraphMapper.Proofs.Query.ById

namespace GraphMapper

namespace Build

variable {α : Type} {steps : List Step}

/-- What is decided first decides whether there is a traversal. -/
theorem traversalFrom_check_bind (c : Checked α) (k : α → Build Unit) :
    traversalFrom steps (check c >>= k)
      = c >>= fun a => traversalFrom steps (k a) := by
  unfold traversalFrom
  rw [runFrom_bind, runFrom_check]
  cases c <;> rfl

/-- What is appended first stands before the rest. -/
theorem traversalFrom_append_bind (more : List Step) (k : Unit → Build Unit) :
    traversalFrom steps (Query.append more >>= k)
      = traversalFrom (steps ++ more) (k ()) := by
  unfold traversalFrom
  rw [runFrom_bind, runFrom_append]

theorem traversalFrom_step_bind (name : StepName) (args : List Value)
    (k : Unit → Build Unit) :
    traversalFrom steps (step name args >>= k)
      = traversalFrom (steps ++ [.call name args]) (k ()) := by
  unfold traversalFrom
  rw [runFrom_bind, runFrom_step]

/-- One builder after the other. -/
theorem traversalFrom_then (b c : Build Unit) (start : List Step) :
    traversalFrom start (b >>= fun _ => c)
      = traversalFrom start b >>= fun built => traversalFrom built c := by
  unfold traversalFrom
  rw [runFrom_bind]
  rcases b.runFrom start with ⟨e | _, built⟩ <;> rfl

theorem check_bind {β : Type} (c : Checked α) (k : α → Checked β) :
    check (c >>= k) = check c >>= fun a => check (k a) := by
  cases c <;> rfl

end Build

namespace Query

open Build

variable {m : Model}

/-- A selection stands before what follows, if there is one. -/
theorem traversalFrom_select_bind (start : List Step) (filter : Value)
    (k : Unit → Build Unit) :
    traversalFrom start (select m filter >>= k)
      = Filter.select m filter >>= fun selected =>
        traversalFrom (start ++ selected) (k ()) := by
  unfold select
  rw [bind_assoc, traversalFrom_check_bind]
  rfl

/-- What an update writes, under storage keys. -/
def changes (m : Model) (record : Value) : Checked Entries := do
  let data ← payload m record
  let columns ← fieldsByKey m
  writes m columns (Entries.erase m.idField data)

/-- The steps that write one entry of an update in the place of what is
there. -/
def rewriting (e : Value × Value) : List Step :=
  [clearing [e.1], .call .property [e.1, e.2]]

theorem update_eq (m : Model) (filter record : Value) :
    update m filter record = (do
      let entries ← check (changes m record)
      select m filter
      append (entries.flatMap rewriting)
      Build.step .count []) := by
  unfold update changes
  rw [check_bind, bind_assoc]
  congr 1
  funext data
  rw [check_bind, bind_assoc]
  rfl

/-- An update is built when its record can be written and its filter
selects. -/
theorem traversalFrom_update (start : List Step) (filter record : Value) :
    traversalFrom start (update m filter record) = (do
      let entries ← changes m record
      let selected ← Filter.select m filter
      .ok (start ++ selected ++ entries.flatMap rewriting
          ++ [.call .count []])) := by
  rw [update_eq, traversalFrom_check_bind]
  congr 1
  funext entries
  rw [traversalFrom_select_bind]
  rfl

end Query

end GraphMapper

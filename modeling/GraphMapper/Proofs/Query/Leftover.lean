/-
What a request leaves at its source.

A request appends the same steps behind any source (`Request.appends`), so it
is enough to know what it leaves when it has failed from nothing. Every
operation checks what it can, appends the steps that it starts with, and goes
on (`leaves_check`, `leaves_append`): if it fails before that it leaves
nothing, and if it fails afterwards it leaves at least these. What may fail
afterwards is the name of a field that is read or sorted by, which may be no
key, and an entry that is written, which may have no stored form. So selections
that are counted or dropped and updates, which work out their entries first,
are all or nothing; the others stumble at such a name or entry
(`Request.Stumbles`).

Main statement: `whole_or_nothing`.

Chain: `Query.Request` has the requests, `Query.Appending` the sources;
`Query.Joining` uses it for a source that is shared.
-/
import GraphMapper.Proofs.Query.Identity
import GraphMapper.Proofs.Query.Sorting
import GraphMapper.Query.Request

namespace GraphMapper

namespace Build

variable {α ι : Type}

/-- The builder fails and leaves steps. -/
def Leaves (b : Build Unit) : Prop :=
  (b.runFrom []).1.isOk = false ∧ (b.runFrom []).2 ≠ []

/-- The steps of a request are told from its run on a source. -/
theorem isOk_traversalFrom (steps : List Step) (b : Build Unit) :
    (traversalFrom steps b).isOk = (b.runFrom steps).1.isOk := by
  unfold traversalFrom
  rcases b.runFrom steps with ⟨e | _, built⟩ <;> rfl

/-- Whether there is a traversal does not depend on what it stands behind. -/
theorem Appends.isOk_traversalFrom {b : Build Unit} (hb : Appends b)
    (steps : List Step) :
    (traversalFrom steps b).isOk = (traversalFrom [] b).isOk := by
  rw [traversalFrom_eq_append hb, isOk_map]

/-- A check that fails leaves nothing. -/
theorem leaves_check {c : Checked α} {k : α → Build Unit} :
    Leaves (check c >>= k) ↔ ∃ a, c = .ok a ∧ Leaves (k a) := by
  unfold Leaves
  rw [runFrom_bind, runFrom_check]
  cases c with
  | error e => simp
  | ok a => simp

/-- Steps that have been appended are left when what follows fails. -/
theorem leaves_append {steps : List Step} {k : Unit → Build Unit}
    (hsteps : steps ≠ []) (hk : Appends (k ())) :
    Leaves (Query.append steps >>= k) ↔ (traversalFrom [] (k ())).isOk
      = false := by
  unfold Leaves
  rw [runFrom_bind, runFrom_append, isOk_traversalFrom]
  show (((k ()).runFrom ([] ++ steps)).1.isOk = false ∧
    ((k ()).runFrom ([] ++ steps)).2 ≠ []) ↔ _
  rw [hk ([] ++ steps)]
  simp [hsteps]

/-- A builder of items goes on while it can. -/
private theorem isOk_forM {f : ι → Build Unit} {good : ι → Bool}
    (hf : ∀ i steps, (traversalFrom steps (f i)).isOk = good i) (is : List ι)
    (steps : List Step) :
    (traversalFrom steps (is.forM f)).isOk = is.all good := by
  induction is generalizing steps with
  | nil => rfl
  | cons i is ih =>
      show (traversalFrom steps (f i >>= fun _ => is.forM f)).isOk = _
      rw [traversalFrom_then, List.all_cons, ← hf i steps]
      cases traversalFrom steps (f i) with
      | error e => rfl
      | ok built => exact ih built

end Build

namespace Query

open Build Record

variable {m : Model}

-- ================================================================ appending

/-- One order is one step, or a failure. -/
private theorem appends_orderStep (e : Value × Sorting) :
    Appends (orderStep m e) :=
  (appends_check _).bind fun _ => appends_step _ _

/-- So is a bound. -/
private theorem appends_boundStep (name : StepName) (bound : Option Value) :
    Appends (boundStep name bound) := by
  cases bound with
  | none => exact appends_pure ()
  | some n => exact appends_step _ _

/-- To read by a plan appends the same behind any source. -/
theorem appends_reading (p : Plan) : Appends (reading m p) := by
  have hcuts : Appends (do boundStep .skip p.skip; boundStep .limit p.limit) :=
    (appends_boundStep _ _).bind fun _ => appends_boundStep _ _
  refine (appends_check _).bind fun keys => (appends_step _ _).bind fun _ => ?_
  split
  · refine (appends_step _ _).bind fun _ => ?_
    exact (appends_forM appends_orderStep _).bind fun _ => hcuts
  · exact hcuts

/-- So does to read by a filter with entries. -/
private theorem appends_filtered (es : Entries) : Appends (filtered m es) := by
  rw [filtered_eq]
  exact (appends_check _).bind fun p => (appends_append _).bind fun _ =>
    appends_reading p

/-- So does every query. -/
private theorem appends_query (filter : Value) : Appends (query m filter) := by
  unfold query
  split
  · exact (appends_check _).bind fun es => appends_filtered es
  · exact appends_append _

-- =============================================================== what is left

/-- The name is to be looked up and is no key. -/
def Unreadable (m : Model) (name : Value) : Prop :=
  name.equal m.idField = false ∧ name.isKey = false

/-- The entry is to be written as a property and has no stored form. -/
def Unwritable (m : Model) (leftOut : List Value) (e : Value × Value) : Prop :=
  e.1.isIn leftOut = false ∧ e.1.equal m.idField = false ∧
    (serialize (typeFor m e.1) e.2).isOk = false

/-- A storage key is found if the name can be looked up. -/
private theorem isOk_keyOf (m : Model) (name : Value) :
    (keyOf m name).isOk = name.isKey := by
  unfold keyOf Model.columnOf
  rw [isOk_map]
  cases name.isKey <;> rfl

/-- All are if all names can be, the primary key apart. -/
private theorem isOk_storageKeys (names : List Value) :
    (storageKeys m names).isOk = names.all fun name => name.equal m.idField ||
      name.isKey := by
  unfold storageKeys
  simp only [isOk_mapM, List.all_filter, isOk_keyOf, Bool.not_not]

/-- So with the key to sort by. -/
theorem isOk_sortKey (name : Value) :
    (sortKey m name).isOk = (name.equal m.idField || name.isKey) := by
  unfold sortKey
  cases name.equal m.idField with
  | true => rfl
  | false => exact isOk_keyOf m name

/-- Rows can be read and sorted unless one of the names is no key. -/
private theorem reading_fails_iff (p : Plan) :
    (traversalFrom [] (reading m p)).isOk = false ↔
      ∃ name ∈ p.names ++ p.order.map (·.1), Unreadable m name := by
  have hok : (traversalFrom [] (reading m p)).isOk
      = ((storageKeys m p.names).isOk &&
        (p.order.mapM fun e => sortKey m e.1).isOk) := by
    rw [traversalFrom_reading]
    cases storageKeys m p.names with
    | error e => rfl
    | ok keys => cases p.order.mapM fun e => sortKey m e.1 <;> rfl
  have hall : (traversalFrom [] (reading m p)).isOk
      = (p.names ++ p.order.map (·.1)).all fun name => name.equal m.idField ||
      name.isKey := by
    rw [hok, isOk_storageKeys, isOk_mapM, List.all_append, List.all_map]
    simp only [isOk_sortKey, Function.comp_def]
  rw [hall, List.all_eq_false]
  simp only [Bool.not_eq_true, Bool.or_eq_false_iff, Unreadable]

/-- An entry is written unless its value has no stored form; those that are
left out always are. -/
private theorem isOk_writeEntry (leftOut : List Value) (e : Value × Value)
    (steps : List Step) :
    (traversalFrom steps (writeEntry m leftOut e.1 e.2)).isOk
      = (e.1.isIn leftOut || e.1.equal m.idField ||
        (serialize (typeFor m e.1) e.2).isOk) := by
  unfold writeEntry
  cases e.1.isIn leftOut with
  | true => rfl
  | false =>
      cases e.1.equal m.idField with
      | true => rfl
      | false =>
          simp only [Bool.false_eq_true, if_false, traversalFrom_check_bind,
            Bool.false_or]
          cases serialize (typeFor m e.1) e.2 <;> rfl

/-- A record can be written unless one of its entries has no stored form. -/
theorem write_fails_iff (leftOut : List Value) (es : Entries) :
    (traversalFrom [] (write m leftOut es)).isOk = false ↔ ∃ e ∈ es,
      Unwritable m leftOut e := by
  unfold write
  rw [isOk_forM (isOk_writeEntry leftOut), List.all_eq_false]
  simp only [Bool.not_eq_true, Bool.or_eq_false_iff, Unwritable, and_assoc]

/-- A selection is left when what follows fails. -/
private theorem leaves_select {filter : Value} {k : Unit → Build Unit}
    (hk : Appends (k ())) :
    Leaves (select m filter >>= k) ↔ ∃ selected,
      Filter.select m filter = .ok selected ∧
      (traversalFrom [] (k ())).isOk = false := by
  unfold select
  rw [bind_assoc, leaves_check]
  refine exists_congr fun selected => and_congr_right fun hselected => ?_
  obtain ⟨ids, conditions, tests, -, rfl⟩ := Filter.select_eq_ok hselected
  exact leaves_append (List.cons_ne_nil _ _) hk

/-- Nothing is left of a selection that is followed by what cannot fail. -/
private theorem not_leaves_select {filter : Value} {k : Unit → Build Unit}
    (hk : Appends (k ())) (hok : (traversalFrom [] (k ())).isOk = true) :
    ¬Leaves (select m filter >>= k) := by
  rw [leaves_select hk, hok]
  simp

end Query

-- ================================================================ requests

namespace Request

open Build Query Record

variable {m : Model}

/-- Each request appends the same behind any source. -/
theorem appends (m : Model) (request : Request) :
    Appends (request.operation m) := by
  cases request with
  | query filter => exact appends_query filter
  | count filter =>
      exact (appends_select m filter).bind fun _ => appends_step _ _
  | presence id =>
      refine (appends_select m _).bind fun _ =>
        (appends_step _ _).bind fun _ => ?_
      exact appends_step _ _
  | drop filter => exact appends_drop m filter
  | create record => exact appends_create m record
  | replace id record => exact appends_replace m id record
  | update filter record => exact appends_update m filter record

/-- Everything that is checked before the first step is well, and then there is
a name to be read or sorted by that is no key, or an entry to be written that
has no stored form. -/
def Stumbles (m : Model) : Request → Prop
  | .query filter =>
      filter.isGiven = true ∧ ∃ es, filter.entries = .ok es ∧ ∃ p,
      plan m es = .ok p ∧ ∃ name ∈ p.names ++ p.order.map (·.1),
        Unreadable m name
  | .create record =>
      ∃ data, (record.toEntries >>= toStorage m) = .ok data ∧ ∃ made,
        front m data = .ok made ∧ ∃ e ∈ data, Unwritable m (endKeys m) e
  | .replace id record => ∃ data, payload m record = .ok data ∧ ∃ selected,
      Filter.select m (byId m id) = .ok selected ∧
        ∃ e ∈ data, Unwritable m (m.idField :: Reference.fields) e
  | .count _ | .presence _ | .drop _ | .update _ _ => False

/-- A query leaves something if it stumbles over a name. -/
private theorem leaves_query (filter : Value) :
    Leaves (Query.query m filter) ↔ Stumbles m (.query filter) := by
  unfold Query.query
  by_cases hgiven : filter.isGiven = true
  · rw [if_pos hgiven]
    refine leaves_check.trans (Iff.trans ?_ (and_iff_right hgiven).symm)
    refine exists_congr fun es => and_congr_right fun _ => ?_
    rw [filtered_eq, leaves_check]
    refine exists_congr fun p => and_congr_right fun hp => ?_
    obtain ⟨-, -, -, -, -, -, -, hselect⟩ := plan_eq_ok hp
    obtain ⟨ids, conditions, tests, -, hselected⟩ :=
      Filter.select_eq_ok hselect
    rw [leaves_append (by rw [hselected]; exact List.cons_ne_nil _ _)
      (appends_reading p), reading_fails_iff]
  · rw [if_neg hgiven]
    exact iff_of_false (fun h => Bool.noConfusion h.1) fun h => hgiven h.1

/-- A creation does if it stumbles over an entry. -/
private theorem leaves_create (record : Value) :
    Leaves (Query.create m record) ↔ Stumbles m (.create record) := by
  unfold Stumbles
  rw [create_front, leaves_check]
  refine exists_congr fun data => and_congr_right fun _ => ?_
  rw [leaves_check]
  refine exists_congr fun made => and_congr_right fun hmade => ?_
  have hne : made ≠ [] := by
    unfold front at hmade
    split at hmade
    · obtain ⟨origin, -, hmade⟩ := bind_eq_ok hmade
      obtain ⟨target, -, hmade⟩ := bind_eq_ok hmade
      rw [← Except.ok.inj hmade]
      exact List.cons_ne_nil _ _
    · rw [← Except.ok.inj hmade]
      exact List.cons_ne_nil _ _
  rw [leaves_append hne (appends_write m _ _), write_fails_iff]

/-- So does a replacement. -/
private theorem leaves_replace (id record : Value) :
    Leaves (Query.replace m id record) ↔ Stumbles m (.replace id record) := by
  unfold Query.replace Stumbles
  rw [leaves_check]
  refine exists_congr fun data => and_congr_right fun _ => ?_
  have hwrite : Appends (write m (m.idField :: Reference.fields) data) :=
    appends_write m _ _
  rw [leaves_select ((appends_append _).bind fun _ => hwrite)]
  refine exists_congr fun selected => and_congr_right fun _ => ?_
  rw [traversalFrom_append_bind, hwrite.isOk_traversalFrom, write_fails_iff]

/-- A request leaves steps when it stumbles, and only then. -/
private theorem leaves_iff (request : Request) :
    Leaves (request.operation m) ↔ request.Stumbles m := by
  cases request with
  | query filter => exact leaves_query filter
  | count filter =>
      exact iff_of_false (not_leaves_select (appends_step _ _) rfl) id
  | presence id =>
      have hk : Appends (Build.step .limit [.int 1] >>= fun _ =>
          Build.step .count []) :=
        (appends_step _ _).bind fun _ => appends_step _ _
      exact iff_of_false (not_leaves_select hk rfl) (fun h => h)
  | drop filter =>
      exact iff_of_false (not_leaves_select (appends_step _ _) rfl) id
  | create record => exact leaves_create record
  | replace id record => exact leaves_replace id record
  | update filter record =>
      refine iff_of_false (fun h => ?_) id
      change Leaves (Query.update m filter record) at h
      rw [update_eq] at h
      obtain ⟨entries, -, h⟩ := leaves_check.mp h
      have hk : Appends (append (entries.flatMap rewriting) >>= fun _ =>
          Build.step .count []) :=
        (appends_append _).bind fun _ => appends_step _ _
      exact not_leaves_select hk rfl h

/-- Behind any source a request comes to what it comes to from nothing: it
appends the same steps, or it fails in the same way. If it fails it leaves the
source as it was, unless it stumbles at a name that is no key or an entry that
has no stored form; then it leaves what it has appended by then. Counts, drops,
and updates never do. -/
theorem whole_or_nothing (r : Registry) (name : Option String)
    (request : Request) (source : List Step) :
    match request.build r name source with
    | (.ok _, steps) =>
        ∃ own, request.build r name [] = (.ok (), own) ∧ steps = source ++ own
    | (.error e, steps) => ∃ left, request.build r name [] = (.error e, left) ∧
        steps = source ++ left ∧
        (steps = source ↔ ¬∃ m, r.get name = .ok m ∧ request.Stumbles m) := by
  unfold build
  cases hget : r.get name with
  | error e => exact ⟨[], rfl, (List.append_nil source).symm, by simp⟩
  | ok m =>
      have hleaves := leaves_iff (m := m) request
      unfold Leaves at hleaves
      dsimp only
      rw [appends m request source]
      rcases hrun : (request.operation m).runFrom [] with ⟨e | u, left⟩
      · refine ⟨left, rfl, rfl, ?_⟩
        rw [hrun] at hleaves
        have hstumbles : (∃ m', Except.ok m = (.ok m' : Checked Model) ∧
            request.Stumbles m') ↔ left ≠ [] := by
          simp [← hleaves, Except.isOk, Except.toBool]
        rw [hstumbles, not_not, List.append_right_eq_self]
      · exact ⟨left, rfl, rfl⟩

-- An age that is no number is noticed when the id has been written.
example :
    ((Request.create
      (.map [(.text "id", .text "p9"), (.text "age", .text "x")])).build
        (Registry.empty.register Filter.sampleModel) (some "Person")
          [.call .vertices []]).2
            = [.call .vertices [], .call .addVertex [.text "Person"],
        .call .property [.idKey, .text "p9"]] := by
  rfl

end Request

end GraphMapper

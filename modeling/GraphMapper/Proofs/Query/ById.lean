/-
Operations by id: their traversals, and what these reach.

A traversal that selects by id is built only for a scalar, and begins at the
element that this names (`select_byId_bind`). What stands behind the selection
counts that element, makes a row of it, drops it, or writes its properties; a
row may then be sorted and cut, which gives no row that was not there before.
So a read shows the named element or nothing, and a change leaves every other
element of the index as it was (`Filter.Spares`).

That others are spared is said by their ids and not by the handle of the named
one: it then holds along any number of changes in a row, also where the first
of them has dropped the element.

# A traversal by its parts

Each traversal here is a selection and something behind it. The selection is
evaluated once (`target`), and all else is about the one element that it finds,
or about none. Where the steps behind it are not known exactly, as with a
record that is yet to be read, it is enough to know their kind: `Adds` says
that a builder adds steps of some kind only, and `Finds` that a run finds items
of some kind only. Both are closed under what puts builders and runs together.

Chain: `Filter.Sought` says which filter seeks an id; `Graph.Touching` has the
relation that a change of one element keeps; `Connector.ById` lifts this to the
operations.
-/
import GraphMapper.Proofs.Filter.Sought
import GraphMapper.Proofs.Graph.Rows
import GraphMapper.Proofs.Graph.Touching
import GraphMapper.Proofs.Query.Appending

namespace GraphMapper

-- ========================================================== what is appended

namespace Build

variable {α β : Type} {P : Step → Prop}

/-- A traversal that is built has got through every part of its builder. -/
theorem traversalFrom_bind {b : Build α} {k : α → Build Unit}
    {steps built : List Step} (h : traversalFrom steps (b >>= k) = .ok built) :
    ∃ a mid, b.runFrom steps = (.ok a, mid) ∧
      traversalFrom mid (k a) = .ok built := by
  unfold traversalFrom at h
  rw [runFrom_bind] at h
  rcases hb : b.runFrom steps with ⟨e | a, mid⟩
  · rw [hb] at h
    cases h
  · rw [hb] at h
    exact ⟨a, mid, rfl, h⟩

/-- A traversal that has been built has passed each decision. -/
theorem traversalFrom_check {c : Checked α} {k : α → Build Unit}
    {steps built : List Step}
    (h : traversalFrom steps (check c >>= k) = .ok built) :
    ∃ a, c = .ok a ∧ traversalFrom steps (k a) = .ok built := by
  obtain ⟨a, mid, hc, hrest⟩ := traversalFrom_bind h
  rw [runFrom_check] at hc
  obtain ⟨hchecked, hmid⟩ := Prod.mk.inj hc
  exact ⟨a, hchecked, hmid ▸ hrest⟩

/-- And has the steps that were appended. -/
theorem traversalFrom_append {more steps built : List Step}
    {k : Unit → Build Unit}
    (h : traversalFrom steps (Query.append more >>= k) = .ok built) :
    traversalFrom (steps ++ more) (k ()) = .ok built := by
  obtain ⟨u, mid, hmore, hrest⟩ := traversalFrom_bind h
  rw [runFrom_append] at hmore
  exact (Prod.mk.inj hmore).2 ▸ hrest

/-- All steps that the builder appends have the property, also when it
fails. -/
def Adds (P : Step → Prop) (b : Build α) : Prop :=
  ∀ steps, ∃ more, (b.runFrom steps).2 = steps ++ more ∧ ∀ step ∈ more, P step

/-- Nothing is added by giving something back. -/
theorem adds_pure (a : α) : Adds P (pure a : Build α) :=
  fun steps => ⟨[], (List.append_nil steps).symm, fun _ h => (nomatch h)⟩

/-- One step of the kind. -/
theorem adds_step {name : StepName} {args : List Value}
    (h : P (.call name args)) :
    Adds P (step name args) := by
  intro steps
  refine ⟨[.call name args], rfl, fun s hs => ?_⟩
  rw [List.mem_singleton.mp hs]
  exact h

/-- A row of steps of the kind. -/
theorem adds_append {more : List Step} (h : ∀ s ∈ more, P s) :
    Adds P (Query.append more) :=
  fun _ => ⟨more, rfl, h⟩

/-- Parts that add steps of a kind do so together. -/
theorem Adds.bind {b : Build α} {k : α → Build β} (hb : Adds P b)
    (hk : ∀ a, Adds P (k a)) :
    Adds P (b >>= k) := by
  intro steps
  obtain ⟨more, hmore, hall⟩ := hb steps
  rw [runFrom_bind]
  rcases hrun : b.runFrom steps with ⟨e | a, mid⟩
  · rw [hrun] at hmore
    exact ⟨more, hmore, hall⟩
  · rw [hrun] at hmore
    obtain ⟨rest, hrest, hallRest⟩ := hk a mid
    refine ⟨more ++ rest, ?_, fun s hs => ?_⟩
    · show ((k a).runFrom mid).2 = _
      rw [hrest, show mid = steps ++ more from hmore, List.append_assoc]
    · rcases List.mem_append.mp hs with hs | hs
      · exact hall s hs
      · exact hallRest s hs

/-- What is decided appends nothing, and decides what follows. -/
theorem Adds.of_check {c : Checked α} {k : α → Build β}
    (hk : ∀ a, c = .ok a → Adds P (k a)) :
    Adds P (check c >>= k) := by
  intro steps
  rw [runFrom_bind, runFrom_check]
  cases c with
  | error e => exact adds_pure () steps
  | ok a => exact hk a rfl steps

/-- And so does a row of them. -/
theorem adds_forM {ι : Type} {f : ι → Build Unit} {is : List ι}
    (hf : ∀ i ∈ is, Adds P (f i)) :
    Adds P (is.forM f) := by
  induction is with
  | nil => exact adds_pure ()
  | cons i is ih =>
      have hrest := ih fun j hj => hf j (List.mem_cons_of_mem _ hj)
      exact (hf i List.mem_cons_self).bind fun _ => hrest

/-- What has been built is what was there, and steps of the kind. -/
theorem Adds.traversalFrom {b : Build Unit} (hb : Adds P b)
    {steps built : List Step} (h : traversalFrom steps b = .ok built) :
    ∃ more, built = steps ++ more ∧ ∀ step ∈ more, P step := by
  obtain ⟨more, hmore, hall⟩ := hb steps
  unfold Build.traversalFrom at h
  rcases hrun : b.runFrom steps with ⟨e | _, mid⟩
  · rw [hrun] at h
    cases h
  · rw [hrun] at h hmore
    exact ⟨more, (Except.ok.inj h).symm.trans hmore, hall⟩

end Build

-- ================================================================ traversals

namespace Query

open Build

variable {m : Model} {id : Value} {f : Face} {steps : List Step}

/-- A traversal that selects by id has a scalar to do so, and is built behind a
source that looks it up. -/
theorem select_byId_bind (hname : m.idField.face? = some f)
    (hid : Filter.isConstraint m id = false) {k : Unit → Build Unit}
    (h : traversalFrom [] (select m (byId m id) >>= k) = .ok steps) :
    id.isScalar = true
      ∧ traversalFrom [Filter.source m [id], Filter.labelled m.label] (k ())
        = .ok steps := by
  obtain ⟨u, selected, hselect, hrest⟩ := traversalFrom_bind h
  unfold select at hselect
  rw [runFrom_bind, runFrom_check] at hselect
  rcases Filter.select_byId hname hid with ⟨hscalar, hfound⟩ | ⟨e, he⟩
  · rw [hfound] at hselect
    refine ⟨hscalar, ?_⟩
    rw [show selected = [Filter.source m [id], Filter.labelled m.label] from
      (Prod.mk.inj hselect).2.symm] at hrest
    exact hrest
  · rw [he] at hselect
    cases hselect

/-- A destruction by id drops the element that the id names. -/
theorem drop_byId (hname : m.idField.face? = some f)
    (hid : Filter.isConstraint m id = false)
    (h : traversalFrom [] (drop m (byId m id)) = .ok steps) :
    id.isScalar = true
      ∧ steps = [Filter.source m [id], Filter.labelled m.label,
        .call .drop []] := by
  obtain ⟨hscalar, hrest⟩ := select_byId_bind hname hid h
  exact ⟨hscalar, (Except.ok.inj hrest).symm⟩

/-- A count by id counts it. -/
theorem count_byId (hname : m.idField.face? = some f)
    (hid : Filter.isConstraint m id = false)
    (h : traversalFrom [] (count m (byId m id)) = .ok steps) :
    id.isScalar = true
      ∧ steps = [Filter.source m [id], Filter.labelled m.label,
        .call .count []] := by
  obtain ⟨hscalar, hrest⟩ := select_byId_bind hname hid h
  exact ⟨hscalar, (Except.ok.inj hrest).symm⟩

/-- Whether there is one is a count of one at most. -/
theorem presence_byId (hname : m.idField.face? = some f)
    (hid : Filter.isConstraint m id = false)
    (h : traversalFrom [] (presence m id) = .ok steps) :
    id.isScalar = true
      ∧ steps = [Filter.source m [id], Filter.labelled m.label,
        .call .limit [.int 1],
          .call .count []] := by
  obtain ⟨hscalar, hrest⟩ := select_byId_bind hname hid h
  exact ⟨hscalar, (Except.ok.inj hrest).symm⟩

-- =============================================================== replacement

/-- A record is written property by property if its writer leaves out the
primary key, and if no field is named by the reserved key of ids or stored
under it. -/
private theorem adds_write (hname : m.idField.face? = some f)
    (htype : Record.typeFor m .idKey = none) {leftOut : List Value}
    (hout : m.idField ∈ leftOut) (es : Entries) :
    Adds Graph.WritesProperty (Record.write m leftOut es) := by
  refine adds_forM fun e _ => ?_
  unfold Record.writeEntry
  by_cases hleft : e.1.isIn leftOut = true
  · rw [if_pos hleft]
    exact adds_pure ()
  · rw [if_neg hleft]
    by_cases hkey : e.1.equal m.idField = true
    · -- an entry under the primary key has been left out already
      refine absurd (List.any_eq_true.mpr ⟨m.idField, hout, ?_⟩) hleft
      exact (Value.same_iff_face' hname).mpr
        ((Value.equal_iff_face hname).mp hkey)
    · rw [if_neg hkey]
      refine .of_check fun stored hstored => adds_step ⟨e.1, stored, rfl, ?_⟩
      intro hreserved
      rw [hreserved, htype] at hstored
      cases hstored

/-- A replacement by id clears the element and writes the record to it. -/
theorem replace_byId (hname : m.idField.face? = some f)
    (hid : Filter.isConstraint m id = false)
    (htype : Record.typeFor m .idKey = none) {record : Value}
    (h : traversalFrom [] (replace m id record) = .ok steps) :
    id.isScalar = true ∧ ∃ writes, (∀ step ∈ writes, Graph.WritesProperty step)
      ∧ steps = Filter.source m [id] :: Filter.labelled m.label :: clearing []
        :: writes := by
  obtain ⟨data, -, h⟩ := traversalFrom_check h
  obtain ⟨hscalar, hrest⟩ := select_byId_bind hname hid h
  obtain ⟨writes, hwrites, hall⟩ :=
    (adds_write hname htype List.mem_cons_self data).traversalFrom
      (traversalFrom_append hrest)
  exact ⟨hscalar, writes, hall, hwrites⟩

-- ===================================================================== reads

/-- The step sorts or cuts what it gets. -/
def Trims (step : Step) : Prop :=
  ∃ name args, step = .call name args ∧ name ∈ [StepName.order, .orderBy,
    .skip, .limit]

/-- A bound is a step that leaves items out, or there is none. -/
private theorem adds_bounds (name : StepName)
    (hname : name ∈ [StepName.order, .orderBy, .skip, .limit])
    (b : Option Value) : Adds Trims (boundStep name b) := by
  cases b with
  | none => exact adds_pure ()
  | some n => exact adds_step ⟨name, [n], rfl, hname⟩

/-- Two bounds cut a slice. -/
private theorem adds_cut (skip limit : Option Value) : Adds Trims (do
    boundStep .skip skip
    boundStep .limit limit) :=
  (adds_bounds .skip (by simp) skip).bind fun _ =>
    adds_bounds .limit (by simp) limit

/-- An order and two bounds. -/
private theorem adds_sorted (order : List (Value × Sorting))
    (skip limit : Option Value) :
    Adds Trims (do
      step .order []
      order.forM (orderStep m)
      boundStep .skip skip
      boundStep .limit limit) := by
  have hby : ∀ entry, Adds Trims (orderStep m entry) := fun entry =>
    .of_check fun key _ => adds_step ⟨_, _, rfl, by simp⟩
  refine (adds_step ⟨_, _, rfl, by simp⟩).bind fun _ => ?_
  exact (adds_forM fun entry _ => hby entry).bind fun _ => adds_cut skip limit

/-- A query by id makes a row of what it finds, and sorts and cuts that at
most. -/
theorem query_byId (hname : m.idField.face? = some f)
    (hid : Filter.isConstraint m id = false) {es : Entries}
    (hwhere : Entries.field "where" es = byId m id)
    (h : traversalFrom [] (query m (.map es)) = .ok steps) :
    id.isScalar = true ∧ ∃ keys trims, (∀ step ∈ trims, Trims step)
      ∧ steps = Filter.source m [id] :: Filter.labelled m.label
        :: .call .elementMap keys :: trims := by
  have hgiven : (Value.map es).isGiven = true := by
    cases es with
    | nil => cases hwhere
    | cons e es => rfl
  unfold query at h
  rw [if_pos hgiven] at h
  obtain ⟨own, hown, h⟩ := traversalFrom_check h
  rw [show own = es from (Except.ok.inj hown).symm] at h
  obtain ⟨fields, -, h⟩ := traversalFrom_check h
  obtain ⟨order, -, h⟩ := traversalFrom_check h
  obtain ⟨_, -, h⟩ := traversalFrom_check h
  obtain ⟨skip, -, h⟩ := traversalFrom_check h
  obtain ⟨limit, -, h⟩ := traversalFrom_check h
  rw [hwhere] at h
  obtain ⟨hscalar, hrest⟩ := select_byId_bind hname hid h
  obtain ⟨keys, -, hrest⟩ := traversalFrom_check hrest
  have hrest := traversalFrom_append hrest
  refine ⟨hscalar, keys, ?_⟩
  split at hrest
  · obtain ⟨trims, htrims, hall⟩ :=
      (adds_sorted order skip limit).traversalFrom hrest
    exact ⟨trims, hall, htrims⟩
  · obtain ⟨trims, htrims, hall⟩ := (adds_cut skip limit).traversalFrom hrest
    exact ⟨trims, hall, htrims⟩

end Query

-- =============================================================== what is read

namespace Run

variable {α β : Type} {r : Run α} {P Q : α → Prop}

/-- If the run gives something, it is as it should be, whatever graph it is
on. -/
def Finds (r : Run α) (P : α → Prop) : Prop := ∀ g, Yields (r.on g).1 P

/-- What is given as it stands. -/
theorem finds_pure {a : α} (h : P a) : Finds (pure a) P :=
  fun _ => yields_pure h

/-- A failure finds nothing. -/
private theorem finds_fail {e : Failure} :
    Finds (fail e) P := fun _ _ h => (nomatch h)

/-- What is read off the graph. -/
theorem finds_ask {f : Graph → Checked α} (h : ∀ g, Yields (f g) P) :
    Finds (ask f) P := by
  intro g
  rw [on_ask]
  exact h g

/-- What is found behind something found. -/
theorem Finds.bind {k : α → Run β} {R : β → Prop} (hr : Finds r P)
    (hk : ∀ a, P a → Finds (k a) R) : Finds (r >>= k) R := by
  intro g b hb
  rw [on_bind] at hb
  have hg := hr g
  rcases hrun : r.on g with ⟨e | a, g'⟩
  · rw [hrun] at hb
    cases hb
  · rw [hrun] at hb hg
    exact hk a (hg a rfl) g' b hb

/-- What is known of it may be weakened. -/
theorem Finds.mono (h : Finds r P) (hPQ : ∀ a, P a → Q a) : Finds r Q :=
  fun g => (h g).mono hPQ

end Run

namespace Filter

open Run GraphMapper.Graph Query

variable {m : Model} {g g' : Graph} {id : Value} {items : List Item}
  {steps : List Step}

/-- A count counts the named element, if there is one. -/
theorem evaluate_count_byId (hid : id.isScalar = true) :
    g.evaluate [source m [id], labelled m.label, .call .count []]
      = (.ok [.number (target m id g).toList.length], g) := by
  have hgo := on_sought (m := m) (g := g) hid [.call .count []]
  refine hgo.trans ?_
  cases target m id g <;> rfl

/-- At most one element has the id, so the limit leaves nothing out. -/
theorem evaluate_presence_byId (hid : id.isScalar = true) :
    g.evaluate [source m [id], labelled m.label, .call .limit [.int 1],
      .call .count []] = (.ok [.number (target m id g).toList.length], g) := by
  have hgo := on_sought (m := m) (g := g) hid [.call .limit [.int 1],
    .call .count []]
  refine hgo.trans ?_
  cases target m id g <;> rfl

/-- To sort and to cut changes nothing. -/
theorem readsOnly_trims (htrims : ∀ step ∈ steps, Trims step) :
    readsOnly steps = true := by
  induction steps with
  | nil => rfl
  | cons step steps ih =>
      obtain ⟨name, args, rfl, hname⟩ := htrims step List.mem_cons_self
      have hrest := ih fun s hs => htrims s (List.mem_cons_of_mem _ hs)
      simp only [List.mem_cons, List.not_mem_nil, or_false] at hname
      rcases hname with rfl | rfl | rfl | rfl <;>
        simp [readsOnly, changes, runsChildren, hrest]

/-- A cut gives some of the items that it gets, or refuses its bound. -/
private theorem finds_cut {name : StepName}
    (hname : name = .skip ∨ name = .limit) (args : List Value) :
    Finds (perform name args items) fun out =>
      ∀ item ∈ out, item ∈ items := by
  have hbound : ∀ {cut : Option Int → List Item → List Item} (n : Value),
      (∀ b, ∀ item ∈ cut b items, item ∈ items) →
      Finds (do pure (cut (← Run.ask fun _ => sliceBound n) items))
        fun out => ∀ item ∈ out, item ∈ items := by
    intro cut n hsub
    exact (finds_ask fun _ _ _ => trivial).bind fun b _ =>
      finds_pure (hsub b)
  rcases hname with rfl | rfl
  · rcases args with _ | ⟨n, _ | ⟨_, _⟩⟩
    · exact finds_fail
    · exact hbound n mem_of_mem_skip
    · exact finds_fail
  · rcases args with _ | ⟨n, _ | ⟨_, _⟩⟩
    · exact finds_fail
    · exact hbound n mem_of_mem_limit
    · exact finds_fail

/-- Sorting and cutting gives no item that was not there before. -/
theorem finds_trims (htrims : ∀ step ∈ steps, Trims step) (phase : Phase)
    (items : List Item) :
    Finds (run phase steps items) fun out => ∀ item ∈ out, item ∈ items := by
  induction steps generalizing phase items with
  | nil =>
      have hleft : Finds (pure items : Run (List Item)) fun out =>
          ∀ item ∈ out, item ∈ items :=
        finds_pure fun _ h => h
      cases phase <;> exact hleft
  | cons step steps ih =>
      obtain ⟨name, args, rfl, hname⟩ := htrims step List.mem_cons_self
      have hnext : ∀ {next : Phase} {r : Run (List Item)},
          Finds r (fun out => ∀ item ∈ out, item ∈ items) →
          Finds (r >>= fun out => run next steps out) fun out => ∀ item ∈ out,
          item ∈ items := by
        intro next r hr
        refine hr.bind fun kept hkept => ?_
        refine (ih (fun s hs => htrims s (List.mem_cons_of_mem _ hs))
          next kept).mono ?_
        exact fun out hout item hitem => hkept item (hout item hitem)
      simp only [List.mem_cons, List.not_mem_nil, or_false] at hname
      rcases hname with rfl | rfl | rfl | rfl
      case inl =>
          exact hnext (finds_ask fun g => yields_bind fun keys =>
            mem_of_sortAll g keys items)
      case inr.inl =>
          cases phase
          case sorted => exact hnext (finds_pure fun _ h => h)
          all_goals exact hnext finds_fail
      case inr.inr.inl =>
          cases phase <;> exact hnext (finds_cut (.inl rfl) args)
      case inr.inr.inr =>
          cases phase <;> exact hnext (finds_cut (.inr rfl) args)

/-- A query by id gives rows of the named element and nothing else. -/
theorem evaluate_query_byId (hid : id.isScalar = true) {keys : List Value}
    (htrims : ∀ step ∈ steps, Trims step)
    (hgo : g.evaluate
      (source m [id] :: labelled m.label :: .call .elementMap keys :: steps)
      = (.ok items, g')) :
    g' = g ∧ ∃ rows : List Entries, items = rows.map .row
      ∧ ∀ row ∈ rows, ∃ h, target m id g = some h ∧
      g.rowOf keys h = .ok row := by
  -- the query only reads: the one target, then steps that trim its rows
  have hreads : readsOnly (.call .elementMap keys :: steps) = true := by
    simp [readsOnly, changes, runsChildren, readsOnly_trims htrims]
  have hrun : (run .plain (.call .elementMap keys :: steps)
      ((target m id g).toList.map .element)).on g = (.ok items, g') :=
    (on_sought hid _).symm.trans hgo
  have hsame :=
    run_reads _ hreads .plain ((target m id g).toList.map .element) g
  rw [hrun] at hsame
  refine ⟨hsame, ?_⟩
  rw [on_elementMap] at hrun
  cases hrows : (target m id g).toList.mapM (g.rowOf keys) with
  | error e =>
      rw [hrows] at hrun
      cases hrun
  | ok rows =>
      rw [hrows] at hrun
      have hmem := finds_trims htrims .plain (rows.map .row) g items
        (congrArg Prod.fst hrun)
      have hown : ∀ row ∈ rows, ∃ h, target m id g = some h ∧
          g.rowOf keys h = .ok row := by
        intro row hrow
        obtain ⟨h, hh, hgo⟩ := yields_mapM _ _ rows hrows row hrow
        exact ⟨h, Option.mem_toList.mp hh, hgo⟩
      have hleft : ∀ item ∈ items, IsRow item := by
        intro item hitem
        obtain ⟨row, -, hrow⟩ := List.mem_map.mp (hmem item hitem)
        exact ⟨row, hrow⟩
      obtain ⟨kept, rfl⟩ := exists_rows hleft
      refine ⟨kept, rfl, fun row hrow => ?_⟩
      obtain ⟨own, hrow', hsame⟩ :=
        List.mem_map.mp (hmem _ (List.mem_map_of_mem hrow))
      exact Item.row.inj hsame ▸ hown own hrow'

-- ============================================================= what is spared

/-- The elements of the model's kind with other ids, and those of other models,
are left as they are, and nothing is added. -/
def Spares (m : Model) (id : Value) (g g' : Graph) : Prop :=
  Sound [] g → Sound [] g' ∧ (stored m g').Sublist (stored m g) ∧
    ∀ e ∈ stored m g,
      ¬((g.element e.2).label.equal m.label = true ∧
        (g.element e.2).id.same id = true) →
        e ∈ stored m g' ∧ g'.element e.2 = g.element e.2

/-- To spare the others can be composed, since it is said by their ids. -/
theorem steady_spares (m : Model) (id : Value) : Steady (Spares m id) where
  refl _ hs := ⟨hs, .refl _, fun _ he _ => ⟨he, rfl⟩⟩
  trans h₁ h₂ hs := by
    obtain ⟨hs₁, hsub₁, hleft₁⟩ := h₁ hs
    obtain ⟨hs₂, hsub₂, hleft₂⟩ := h₂ hs₁
    refine ⟨hs₂, hsub₂.trans hsub₁, fun e he hother => ?_⟩
    obtain ⟨he₁, heq₁⟩ := hleft₁ e he hother
    obtain ⟨he₂, heq₂⟩ := hleft₂ e he₁ (by rw [heq₁]; exact hother)
    exact ⟨he₂, heq₂.trans heq₁⟩

/-- A change of the properties of the named element leaves the others. -/
private theorem spares_of_sameBut {h : Handle} (hid : id.isScalar = true)
    (htarget : target m id g = some h) (hsame : SameBut h g g') :
    Spares m id g g' := by
  intro hs
  have hstored : stored m g' = stored m g := by
    unfold stored
    rw [hsame.vertices, hsame.edges]
  refine ⟨hsame.sound hs, hstored ▸ .refl _, fun e he hother => ?_⟩
  rw [hstored]
  refine ⟨he, hsame.others e.2 fun heq => hother ?_⟩
  obtain ⟨-, hlabel, hsameId⟩ := (target_eq_some_iff hs hid).mp htarget
  rw [heq]
  exact ⟨hlabel, hsameId⟩

/-- Dropping the named element leaves the others of its kind. -/
private theorem spares_drop {h : Handle} (hid : id.isScalar = true)
    (htarget : target m id g = some h) :
    Spares m id g (g.dropElement h) := by
  intro hs
  obtain ⟨⟨e₀, he₀, rfl⟩, hlabel, hsameId⟩ :=
    (target_eq_some_iff hs hid).mp htarget
  have hstored : stored m (g.dropElement e₀.2)
      = Entries.erase (g.ids e₀.2) (stored m g) := by
    unfold stored dropElement at *
    cases hm : m.isEdge with
    | true =>
        rw [hm, if_pos rfl] at he₀
        simp only [(hs.edge e₀ he₀).2, if_true]
        rfl
    | false =>
        rw [hm, if_neg Bool.false_ne_true] at he₀
        simp only [(hs.vertex e₀ he₀).2, Bool.false_eq_true, if_false]
        rfl
  have helement : ∀ k, (g.dropElement e₀.2).element k = g.element k := by
    intro k
    unfold dropElement
    simp only
    split <;> rfl
  rw [hstored]
  refine ⟨hs.dropElement _, Entries.erase_sublist _ _, fun e he hother =>
    ⟨?_, helement _⟩⟩
  refine (Sound.stored hs).mem_erase_of_ne he₀ he fun heq => hother ?_
  rw [heq]
  exact ⟨hlabel, hsameId⟩

/-- The element that an id names is dropped, and with a vertex its edges, but
no other element of the model has this id. -/
theorem spares_evaluate_drop (hid : id.isScalar = true) :
    Spares m id g
      (g.evaluate [source m [id], labelled m.label, .call .drop []]).2 := by
  have hgo := on_sought (m := m) (g := g) hid [.call .drop []]
  rw [show g.evaluate _ = _ from hgo]
  cases htarget : target m id g with
  | none => exact (steady_spares m id).refl g
  | some h => exact spares_drop hid htarget

/-- Where there is no element nothing is written. -/
private theorem on_cleared_nil
    (hwrites : ∀ step ∈ steps, WritesProperty step) :
    (run .plain (clearing [] :: steps) []).on g = (.ok [], g) := by
  show (run .plain steps []).on g = (.ok [], g)
  induction steps with
  | nil => rfl
  | cons step steps ih =>
      obtain ⟨key, value, rfl, -⟩ := hwrites step List.mem_cons_self
      rw [run_property]
      exact ih fun s hs => hwrites s (List.mem_cons_of_mem _ hs)

/-- So does giving it other properties. -/
theorem spares_evaluate_replace (hid : id.isScalar = true)
    (hwrites : ∀ step ∈ steps, WritesProperty step) :
    Spares m id g
      (g.evaluate (source m [id] :: labelled m.label :: clearing []
        :: steps)).2 := by
  have hgo := on_sought (m := m) (g := g) hid (clearing [] :: steps)
  rw [show g.evaluate _ = _ from hgo]
  cases htarget : target m id g with
  | none =>
      rw [show ((none : Option Handle).toList.map Item.element) = [] from rfl,
        on_cleared_nil hwrites]
      exact (steady_spares m id).refl g
  | some h =>
      have hwithin : Within (SameBut h)
          (run .plain (clearing [] :: steps) [.element h]) :=
        within_cleared (fun item hitem => List.mem_singleton.mp hitem) hwrites
      exact spares_of_sameBut hid htarget (hwithin g)

end Filter

end GraphMapper

/-
Pages of a query.

The bounds of a filter are checked before the first step, like everything else
that it asks for, but what they come to are the last steps of the query. So a
filter with bounds is built into the query without them, and the cuts behind it
(`traversalFrom_slice`), and gives a slice of what that gives
(`evaluate_slice`). Between the selection and the cuts nothing is lost: each
selected element becomes one row, and sorting permutes the rows. So what is
counted behind the same selection is the rows of the query without bounds
(`evaluate_count_filtered`).

Chain: `Filter.Selection` for the elements, `Query.Reading` for the rows and
`Query.Sorting` for their order; `Connector.Reads` compares the operations that
read.
-/
import GraphMapper.Proofs.Graph.Safety
import GraphMapper.Proofs.Query.Reading
import GraphMapper.Proofs.Query.Sorting

namespace GraphMapper

namespace Query

open Build

variable {m : Model} {es es' : Entries} {skip limit : Nat} {steps : List Step}

-- ================================================================== bounds

/-- A filter without its bounds. -/
def unbounded (es : Entries) : Entries :=
  es.filter fun e => !e.1.sameKey (.text "skip") &&
    !e.1.sameKey (.text "limit")

/-- A filter with these bounds in place of its own. -/
def bounded (skip limit : Nat) (es : Entries) : Entries :=
  Entries.insert (.text "limit") (.int limit)
    (Entries.insert (.text "skip") (.int skip) es)

/-- What is asked for with no filter at all. -/
def everything : Entries := [(.text "where", .map [])]

/-- A filter that says something: one without entries is short for asking for
everything. -/
def stated (es : Entries) : Entries := if es.isEmpty then everything else es

/-- A filter that is written out is not empty. -/
theorem stated_ne_nil (es : Entries) : stated es ≠ [] := by
  cases es with
  | nil => exact List.cons_ne_nil _ _
  | cons e es => exact List.cons_ne_nil _ _

/-- A filter with an entry is not taken for none. -/
theorem query_given (h : es ≠ []) : query m (.map es) = filtered m es := by
  cases es with
  | nil => exact absurd rfl h
  | cons e es => rfl

/-- One filter has no bounds, and the other asks a model for the same but has
the bounds `skip` and `limit`. -/
structure Slices (m : Model) (es es' : Entries) (skip limit : Nat) : Prop where
  noSkip : Entries.field "skip" es = .null
  noLimit : Entries.field "limit" es = .null
  skip : Entries.field "skip" es' = .int skip
  limit : Entries.field "limit" es' = .int limit
  fields : Entries.field "fields" es' = Entries.field "fields" es
  order : Entries.field "order" es' = Entries.field "order" es
  selected : Filter.select m (Entries.field "where" es')
      = Filter.select m (Entries.field "where" es)

/-- A filter with bounds says something. -/
theorem Slices.stated (h : Slices m es es' skip limit) :
    Query.stated es' = es' := by
  cases es' with
  | nil => cases h.skip
  | cons e es' => rfl

/-- Without bounds a filter has what it had, but for these. -/
theorem field_unbounded {key : String} (hskip : key ≠ "skip")
    (hlimit : key ≠ "limit") :
    Entries.field key (unbounded es) = Entries.field key es := by
  unfold Entries.field Entries.get unbounded
  rw [Entries.lookup?_filter]
  intro e _ hsame
  have hface : e.1.face? = some (.text key) :=
    (Value.sameKey_iff_face rfl).mp hsame
  have hother : ∀ {bound : String},
      key ≠ bound → e.1.sameKey (.text bound) = false := by
    intro bound hne
    rw [Bool.eq_false_iff, ne_eq, Value.sameKey_iff_face rfl, hface]
    exact fun heq => hne (Face.text.inj (Option.some.inj heq))
  rw [hother hskip, hother hlimit]
  rfl

/-- Without bounds there are none to be found. -/
private theorem field_unbounded_bound {key : String}
    (h : key = "skip" ∨ key = "limit") :
    Entries.field key (unbounded es) = .null := by
  unfold Entries.field Entries.get
  rw [Entries.lookup?_eq_none (show (Value.text key).face? = _ from rfl)
    fun e he hface => ?_]
  · rfl
  · obtain ⟨-, hkept⟩ := List.mem_filter.mp he
    have hsame : e.1.sameKey (.text key) = true :=
      (Value.sameKey_iff_face rfl).mpr hface
    rcases h with rfl | rfl <;> simp [hsame] at hkept

/-- To ask for everything is to ask for it in words. -/
theorem field_stated {key : String} (hkey : key ≠ "where") :
    Entries.field key (stated es) = Entries.field key es := by
  cases es with
  | cons e es => rfl
  | nil =>
      have hother : ¬(Value.text "where").sameKey (.text key) = true := by
        rw [Value.sameKey_iff_face rfl]
        exact fun heq => hkey (Face.text.inj (Option.some.inj heq)).symm
      unfold Entries.field Entries.get stated everything
      rw [if_pos List.isEmpty_nil, Entries.lookup?_cons, if_neg hother]

/-- What is selected does not depend on how the filter is written out. -/
theorem select_stated : Filter.select m (Entries.field "where" (stated es))
    = Filter.select m (Entries.field "where" es) := by
  cases es with
  | nil => rfl
  | cons e es => rfl

/-- Whatever else a filter with bounds is made of, it has to have these bounds,
and otherwise what the filter has. -/
theorem slices_unbounded (hskip : Entries.field "skip" es' = .int skip)
    (hlimit : Entries.field "limit" es' = .int limit)
    (hsame : ∀ key : String, key ≠ "skip" → key ≠ "limit" →
      Entries.field key es' = Entries.field key es) :
    Slices m (stated (unbounded es)) es' skip limit where
  noSkip := (field_stated (by decide)).trans (field_unbounded_bound (.inl rfl))
  noLimit := (field_stated (by decide)).trans
    (field_unbounded_bound (.inr rfl))
  skip := hskip
  limit := hlimit
  fields := by
    rw [hsame _ (by decide) (by decide), field_stated (by decide),
      field_unbounded (by decide) (by decide)]
  order := by
    rw [hsame _ (by decide) (by decide), field_stated (by decide),
      field_unbounded (by decide) (by decide)]
  selected := by
    rw [hsame _ (by decide) (by decide), select_stated,
      field_unbounded (by decide) (by decide)]

/-- Under another name what was there is found. -/
theorem field_insert_of_ne {key other : String} (hne : key ≠ other)
    (v : Value) :
    Entries.field key (Entries.insert (.text other) v es)
      = Entries.field key es := by
  have hapart : (Value.text other).face? ≠ some (.text key) := fun heq =>
    hne (Face.text.inj (Option.some.inj heq)).symm
  unfold Entries.field Entries.get
  rw [Entries.lookup?_insert_of_ne rfl hapart]

/-- Under its own what has been put there is. -/
theorem field_insert_self (key : String) (v : Value) :
    Entries.field key (Entries.insert (.text key) v es) = v := by
  unfold Entries.field Entries.get
  rw [Entries.lookup?_insert_self rfl]
  rfl

/-- The filter with bounds is the one without, and a slice. -/
theorem slices_bounded (m : Model) (es : Entries) (skip limit : Nat) :
    Slices m (stated (unbounded es)) (bounded skip limit es) skip limit := by
  refine slices_unbounded ?_ (field_insert_self _ _) fun key hskip hlimit => ?_
  · exact (field_insert_of_ne (by decide) _).trans (field_insert_self _ _)
  · exact (field_insert_of_ne hlimit _).trans (field_insert_of_ne hskip _)

-- The bounds stand behind what is there.
example (w o : Value) (skip limit : Nat) :
    bounded skip limit [(.text "where", w), (.text "order", o)]
      = [(.text "where", w), (.text "order", o), (.text "skip", .int skip),
        (.text "limit", .int limit)]
    := rfl

-- ================================================================== building

/-- So its plan is the one without, and the bounds. -/
private theorem plan_slice (h : Slices m es es' skip limit) : plan m es'
    = (plan m es).map fun p =>
    { p with skip := some (.int skip), limit := some (.int limit) } := by
  have hnatural : ∀ (name : String) (n : Nat),
      bound name (.int n) = .ok (some (.int n)) := by
    intro name n
    unfold bound Value.natural?
    simp
  have hfields : Projection.fields es' = Projection.fields es := by
    unfold Projection.fields
    rw [h.fields]
  have horder : orderOf es' = orderOf es := by
    unfold orderOf
    rw [h.order]
  unfold plan
  rw [hfields, horder, h.skip, h.limit, h.noSkip, h.noLimit, h.selected,
    hnatural, hnatural]
  cases Projection.fields es with
  | error e => rfl
  | ok fields =>
      cases orderOf es with
      | error e => rfl
      | ok order =>
          show (checkOrder order fields >>= fun _ => _)
              = Except.map _ (checkOrder order fields >>= _)
          cases checkOrder order fields with
          | error e => rfl
          | ok _ => cases Filter.select m (Entries.field "where" es) <;> rfl

/-- Without bounds there is nothing to cut. -/
private theorem cuts_of_plan (hskip : Entries.field "skip" es = .null)
    (hlimit : Entries.field "limit" es = .null) {p : Plan}
    (hp : plan m es = .ok p) :
    p.skip = none ∧ p.limit = none := by
  obtain ⟨-, -, -, -, -, hskip', hlimit', -⟩ := plan_eq_ok hp
  rw [hskip] at hskip'
  rw [hlimit] at hlimit'
  exact ⟨(Except.ok.inj hskip').symm, (Except.ok.inj hlimit').symm⟩

/-- The steps that leave a slice. -/
def slicing (skip limit : Nat) : List Step :=
  [.call .skip [.int skip], .call .limit [.int limit]]

/-- With bounds a query is the one without them, and the cuts behind it. -/
theorem traversalFrom_slice (h : Slices m es es' skip limit)
    (start : List Step) :
    traversalFrom start (filtered m es')
      = (traversalFrom start (filtered m es)).map
        (· ++ slicing skip limit) := by
  rw [traversalFrom_filtered, traversalFrom_filtered, plan_slice h]
  cases hp : plan m es with
  | error e => rfl
  | ok p =>
      obtain ⟨hskip, hlimit⟩ := cuts_of_plan h.noSkip h.noLimit hp
      show (storageKeys m p.names >>= fun keys => _)
          = Except.map _ (storageKeys m p.names >>= _)
      cases storageKeys m p.names with
      | error e => rfl
      | ok keys =>
          show (p.order.mapM (fun e => sortKey m e.1) >>= fun _ => _)
            = Except.map _ (p.order.mapM (fun e => sortKey m e.1) >>= _)
          cases p.order.mapM fun e => sortKey m e.1 with
          | error e => rfl
          | ok _ =>
              show Except.ok _ = Except.ok _
              rw [hskip, hlimit]
              simp [cuts, slicing]

/-- What a query without bounds is made of. -/
theorem unbounded_eq_ok (hskip : Entries.field "skip" es = .null)
    (hlimit : Entries.field "limit" es = .null) {start : List Step}
    (h : traversalFrom start (filtered m es) = .ok steps) :
    ∃ order selected keys,
      Filter.select m (Entries.field "where" es) = .ok selected ∧
      steps = start ++ selected ++ .call .elementMap keys
        :: sorting m order := by
  obtain ⟨order, selected, keys, skip, limit, -, hskip', hlimit', hselect,
    rfl⟩ := filtered_eq_ok h
  rw [hskip] at hskip'
  rw [hlimit] at hlimit'
  rw [← Except.ok.inj hskip', ← Except.ok.inj hlimit']
  exact ⟨order, selected, keys, hselect, by simp [cuts]⟩

/-- A count is the selection and one step more. -/
theorem traversalFrom_count (m : Model) (filter : Value) (start : List Step) :
    traversalFrom start (count m filter)
      = (Filter.select m filter).map fun selected => start ++ selected
        ++ [.call .count []] := by
  unfold count
  rw [traversalFrom_select_bind]
  cases Filter.select m filter <;> rfl

/-- So is the question whether an id is there, with one element to look for. -/
theorem traversalFrom_presence (m : Model) (id : Value) (start : List Step) :
    traversalFrom start (presence m id)
      = (Filter.select m (byId m id)).map fun selected =>
      start ++ selected ++ [.call .limit [.int 1], .call .count []] := by
  unfold presence
  rw [traversalFrom_select_bind]
  cases Filter.select m (byId m id) with
  | error e => rfl
  | ok selected =>
      show Except.ok (start ++ selected ++ _ ++ _) = Except.ok _
      rw [List.append_assoc]
      rfl

-- =================================================================== trimming

/-- To sort rows makes none. -/
private theorem trims_sorting (order : List (Value × Sorting)) :
    ∀ step ∈ sorting m order, Trims step := by
  intro step hstep
  unfold sorting at hstep
  split at hstep
  · cases hstep
  · rcases List.mem_cons.mp hstep with rfl | hstep
    · exact ⟨_, _, rfl, by simp⟩
    · obtain ⟨e, -, rfl⟩ := List.mem_map.mp hstep
      exact ⟨_, _, rfl, by simp⟩

/-- Neither does to cut them. -/
private theorem trims_cuts {name : StepName}
    (hname : name ∈ [StepName.order, .orderBy, .skip, .limit])
    (bound : Option Value) : ∀ step ∈ cuts name bound, Trims step := by
  intro step hstep
  obtain ⟨n, -, rfl⟩ := List.mem_map.mp hstep
  exact ⟨_, _, rfl, hname⟩

/-- A query makes rows of what it has selected, and sorts and cuts these. -/
private theorem filtered_trims {start : List Step}
    (h : traversalFrom start (filtered m es) = .ok steps) :
    ∃ selected keys trims,
      Filter.select m (Entries.field "where" es) = .ok selected ∧
      (∀ step ∈ trims, Trims step) ∧
      steps = start ++ selected ++ .call .elementMap keys :: trims := by
  obtain ⟨order, selected, keys, skip, limit, -, -, -, hselect, rfl⟩ :=
    filtered_eq_ok h
  refine ⟨selected, keys, _, hselect, fun step hstep => ?_, rfl⟩
  rcases List.mem_append.mp hstep with hstep | hstep
  · rcases List.mem_append.mp hstep with hstep | hstep
    · exact trims_sorting order step hstep
    · exact trims_cuts (by simp) _ step hstep
  · exact trims_cuts (by simp) _ step hstep

/-- So it changes nothing. -/
theorem readsOnly_filtered (h : traversalFrom [] (filtered m es) = .ok steps) :
    Graph.readsOnly steps = true := by
  obtain ⟨selected, keys, trims, hselect, htrims, rfl⟩ := filtered_trims h
  have hrest : Graph.readsOnly (.call .elementMap keys :: trims) = true := by
    simp [Graph.readsOnly, Graph.changes, Graph.runsChildren,
      Filter.readsOnly_trims htrims]
  rw [Graph.readsOnly_append, hrest, List.nil_append,
    Filter.readsOnly_select hselect]
  rfl

/-- So does any query. -/
theorem readsOnly_query {filter : Value}
    (h : traversalFrom [] (query m filter) = .ok steps) :
    Graph.readsOnly steps = true := by
  unfold query at h
  split at h
  · rw [traversalFrom_check_bind] at h
    obtain ⟨es, -, h⟩ := bind_eq_ok h
    exact readsOnly_filtered h
  · have hsteps : [Filter.source m [], Filter.labelled m.label] = steps :=
      Except.ok.inj h
    rw [← hsteps]
    exact Filter.readsOnly_select (m := m) Filter.select_empty

/-- To ask for an id only reads. -/
theorem readsOnly_presence {id : Value}
    (h : traversalFrom [] (presence m id) = .ok steps) :
    Graph.readsOnly steps = true := by
  rw [traversalFrom_presence] at h
  cases hselect : Filter.select m (byId m id) with
  | error e =>
      rw [hselect] at h
      cases h
  | ok selected =>
      rw [hselect] at h
      rw [← Except.ok.inj h, Graph.readsOnly_append, List.nil_append,
        Filter.readsOnly_select hselect]
      rfl

end Query

-- ==================================================================== running

namespace Run

variable {α : Type} {P : α → Prop}

/-- To read each of some items gives a row for each. -/
private theorem finds_each {f : Item → Run α} (hf : ∀ item, Finds (f item) P)
    (items : List Item) :
    Finds (each f items) fun out => out.length = items.length ∧ ∀ a ∈ out,
      P a := by
  induction items with
  | nil => exact finds_pure ⟨rfl, fun _ h => (nomatch h)⟩
  | cons item items ih =>
      refine (hf item).bind fun a ha => ih.bind fun rest hrest =>
        finds_pure ⟨?_, fun b hb => ?_⟩
      · rw [List.length_cons, List.length_cons, hrest.1]
      · rcases List.mem_cons.mp hb with rfl | hb
        · exact ha
        · exact hrest.2 b hb

end Run

namespace Graph

open Run Query

variable {m : Model} {g : Graph} {items : List Item} {steps : List Step}

/-- One row is made of each item. -/
private theorem finds_elementMap (keys : List Value) (items : List Item) :
    Finds (perform .elementMap keys items) fun out =>
      out.length = items.length ∧ ∀ item ∈ out, IsRow item := by
  refine finds_each (fun item => finds_ask fun g => ?_) items
  exact yields_bind fun h => yields_bind fun row => yields_pure ⟨row, rfl⟩

/-- Behind `order` its keys have been used. -/
theorem run_orderBy (keys : List Step)
    (hkeys : ∀ step ∈ keys, ∃ args, step = .call .orderBy args)
    (items : List Item) : run .sorted keys items = pure items := by
  induction keys with
  | nil => rfl
  | cons step keys ih =>
      obtain ⟨args, rfl⟩ := hkeys step List.mem_cons_self
      exact ih fun s hs => hkeys s (List.mem_cons_of_mem _ hs)

/-- Sorting changes nothing but the order. -/
private theorem finds_sorting (order : List (Value × Sorting))
    (items : List Item) :
    Finds (run .plain (sorting m order) items) fun out => out.Perm items := by
  unfold sorting
  split
  · exact finds_pure (.refl _)
  · refine (finds_ask fun g => yields_bind fun keys =>
      sortAll_perm g keys items).bind fun sorted hsorted => ?_
    rw [run_orderBy _ fun step hstep => ?_]
    · exact finds_pure hsorted
    · obtain ⟨e, -, rfl⟩ := List.mem_map.mp hstep
      exact ⟨_, rfl⟩

/-- So a query without bounds has one row for each selected element. -/
private theorem finds_reading (keys : List Value)
    (order : List (Value × Sorting)) (items : List Item) :
    Finds (run .plain (.call .elementMap keys :: sorting m order) items)
      fun out =>
      out.length = items.length :=
  (finds_elementMap keys items).bind fun rows hrows =>
    (finds_sorting order rows).mono fun _ hperm =>
      hperm.length_eq.trans hrows.1

/-- A traversal behind another one runs on what this finds. -/
theorem evaluate_append {name : StepName} {args : List Value}
    (hby : name ≠ .orderBy) (hto : name ≠ .to) (s t : List Step) (g : Graph) :
    g.evaluate (s ++ .call name args :: t)
      = (run .plain s [.start] >>= fun out =>
        run .plain (.call name args :: t) out).on g := by
  show (run .plain (s ++ .call name args :: t) [.start]).on g = _
  rw [run_append_step hby hto]

/-- With its cuts behind it a traversal gives a slice of what it gives. -/
theorem evaluate_slice (steps : List Step) (skip limit : Nat) (g : Graph) :
    g.evaluate (steps ++ slicing skip limit)
      = ((g.evaluate steps).1.map fun items => (items.drop skip).take limit,
          (g.evaluate steps).2) := by
  have hplace : ∀ n length : Nat, slicePlace length (n : Int) = n := by
    intro n length
    unfold slicePlace
    rw [if_pos (Int.natCast_nonneg n), Int.toNat_natCast]
  have hcut : ∀ (items : List Item) (g : Graph),
      (run .plain (slicing skip limit) items).on g
        = (.ok ((items.drop skip).take limit), g) := by
    intro items g
    show (Except.ok (Graph.limit (some (limit : Int))
      (Graph.skip (some (skip : Int)) items)), g) = _
    unfold Graph.limit Graph.skip
    simp only [hplace]
  rw [slicing, evaluate_append (by decide) (by decide), on_bind]
  have hrun : (run .plain steps [.start]).on g = g.evaluate steps := rfl
  rw [hrun]
  rcases g.evaluate steps with ⟨e | items, g'⟩
  · rfl
  · exact hcut items g'

/-- Whatever a query gives is rows. -/
theorem evaluate_filtered {es : Entries}
    (h : Build.traversalFrom [] (filtered m es) = .ok steps)
    (hgo : g.evaluate steps = (.ok items, g)) :
    ∃ rows : List Entries, items = rows.map .row := by
  obtain ⟨selected, keys, trims, -, htrims, rfl⟩ := filtered_trims h
  rw [List.nil_append, evaluate_append (by decide) (by decide), on_bind] at hgo
  have hrows : ∀ found,
      Finds (run .plain (.call .elementMap keys :: trims) found) fun out =>
        ∀ item ∈ out, IsRow item := fun found =>
    (finds_elementMap keys found).bind fun rows hrows =>
      (Filter.finds_trims htrims .plain rows).mono fun out hout item hitem =>
        hrows.2 item (hout item hitem)
  rcases hfound : (run .plain selected [.start]).on g with ⟨e | found, g'⟩
  · rw [hfound] at hgo
    cases hgo
  · rw [hfound] at hgo
    exact exists_rows (hrows found g' items (congrArg Prod.fst hgo))

/-- A count behind a traversal counts what it gives. -/
theorem evaluate_number {g' : Graph}
    (hgo : g.evaluate steps = (.ok items, g')) :
    g.evaluate (steps ++ [.call .count []])
      = (.ok [.number items.length], g') := by
  rw [evaluate_append (by decide) (by decide)]
  exact on_bind_ok hgo

/-- What is counted is the rows of a query without bounds. -/
theorem evaluate_count_filtered {es : Entries} {selected : List Step}
    (hskip : Entries.field "skip" es = .null)
    (hlimit : Entries.field "limit" es = .null)
    (h : Build.traversalFrom [] (filtered m es) = .ok steps)
    (hselect : Filter.select m (Entries.field "where" es) = .ok selected)
    (hgo : g.evaluate steps = (.ok items, g)) :
    g.evaluate (selected ++ [.call .count []])
      = (.ok [.number items.length], g) := by
  obtain ⟨order, own, keys, hown, rfl⟩ := unbounded_eq_ok hskip hlimit h
  obtain rfl : own = selected := Except.ok.inj (hown.symm.trans hselect)
  rw [List.nil_append, evaluate_append (by decide) (by decide), on_bind] at hgo
  have hsame :=
    run_reads own (Filter.readsOnly_select hselect) .plain [.start] g
  rcases hfound : (run .plain own [.start]).on g with ⟨e | found, g'⟩
  · rw [hfound] at hgo
    cases hgo
  · rw [hfound] at hgo hsame
    obtain rfl : g' = g := hsame
    rw [finds_reading keys order found g' items (congrArg Prod.fst hgo)]
    exact evaluate_number hfound

end Graph

end GraphMapper

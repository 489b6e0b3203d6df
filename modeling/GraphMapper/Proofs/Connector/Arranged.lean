/-
What a read gives, element by element.

Whatever a filter asks for, each record that it gives is made of one element
that it finds, and nothing else in the graph matters for it (`recordUnder`).
Which elements these are, and in what order they come, is told by the elements
themselves: what is found is sorted by what the elements have, and cut
(`lists_iff`).

The two sides of the equivalence go the same way. From a read that succeeds it
is told what has been there (`Lists.readies`), and where this is there the read
is computed (`Readies.steps`). So the statement is as strong as the definition
of a read, and it is one about elements only.

Main statement: `lists_iff`.

Chain: `Query.Arranging` for the rows and `Record.Projection` for what is read
of them; `Connector.Ordering` and `Connector.Projection` specialise it.
-/
import GraphMapper.Proofs.Connector.Reads
import GraphMapper.Proofs.Connector.Updating
import GraphMapper.Proofs.Query.Arranging
import GraphMapper.Proofs.Record.Projection

namespace GraphMapper

namespace Filter

variable {m : Model} {g : Graph} {w : Value} {steps : List Step} {k : Handle}

/-- A filter that says nothing is met by every element. -/
theorem meets_of_not_given (resolve : Value → Value) (h : w.isGiven = false)
    (e : Element) :
    meets resolve e .all w = true := by
  cases w with
  | list ws =>
      cases ws with
      | nil => rfl
      | cons w ws => cases h
  | tuple ws =>
      cases ws with
      | nil => rfl
      | cons w ws => cases h
  | map es =>
      cases es with
      | nil => rfl
      | cons e es => cases h
  | _ => rfl

/-- The steps that a filter becomes give what it finds. -/
private theorem evaluate_selected (hcolumns : hasKeyColumns m = true)
    (hkey : m.idField.isKey = true) (hw : w.isProper = true)
    (h : select m w = .ok steps) (g : Graph) :
    g.evaluate steps = (.ok ((found m w g).map .element), g) := by
  unfold select at h
  cases hsought : soughtId? m.idField w with
  | error e =>
      rw [hsought] at h
      cases h
  | ok sought =>
      rw [hsought] at h
      cases sought with
      | some id =>
          rw [← Except.ok.inj h]
          unfold found
          rw [hsought]
          exact on_sought (isScalar_of_sought hsought) []
      | none =>
          -- the filter that is read in its place finds the same
          have hread : ∀ w' : Value, soughtId? m.idField w' = .ok none →
              w'.isProper = true → (if w.isGiven then w else .map [])
                = (if w'.isGiven then w' else .map []) →
              (∀ e, meets m.conditionKey e .all w'
                  = meets m.conditionKey e .all w) →
              (∃ cs, parse m.conditionKey w' = .ok cs) →
              g.evaluate steps = (.ok ((found m w g).map .element), g) := by
            rintro w' hsought' hw' hsame hmeets ⟨cs, hparse⟩
            obtain ⟨steps', hsteps', hgo⟩ :=
              evaluate_found hcolumns hkey hw' hparse g
            unfold select at hsteps'
            rw [hsought', ← hsame] at hsteps'
            unfold found matching at hgo ⊢
            simp only [hsought', hmeets] at hgo
            simp only [hsought]
            rw [Except.ok.inj (h.symm.trans hsteps')]
            exact hgo
          have hbuilt :
              (parse m.conditionKey (if w.isGiven then w else .map [])
                >>= fun cs =>
              lowerAll cs >>= fun tests =>
                Except.ok (source m [] :: labelled m.label :: tests))
                    = .ok steps := h
          obtain ⟨cs, hparse, -⟩ := bind_eq_ok hbuilt
          cases hgiven : w.isGiven with
          | true =>
              rw [hgiven, if_pos rfl] at hparse
              exact hread w hsought hw rfl (fun _ => rfl) ⟨cs, hparse⟩
          | false =>
              refine hread (.map []) rfl rfl (by rw [hgiven]; rfl)
                (fun e => ?_) ⟨_, rfl⟩
              rw [meets_of_not_given _ hgiven]
              rfl

/-- What is found for a model is of its kind. -/
theorem isEdge_found (hg : Graph.Sound [] g) {w : Value}
    (hk : k ∈ found m w g) :
    m.isEdge = (g.element k).isEdge := by
  obtain ⟨e, he, rfl⟩ := List.mem_map.mp ((found_sublist m w g).subset hk)
  unfold stored at he
  cases hedge : m.isEdge with
  | true =>
      rw [hedge, if_pos rfl] at he
      exact (hg.edge e he).2.symm
  | false =>
      rw [hedge, if_neg Bool.false_ne_true] at he
      exact (hg.vertex e he).2.symm

end Filter

namespace Query

variable {m : Model} {es : Entries} {p : Plan}

private theorem bounds_of_plan (h : plan m es = .ok p) :
    (p.skip = none ∨ ∃ n : Nat, p.skip = some (.int n))
      ∧ (p.limit = none ∨ ∃ n : Nat, p.limit = some (.int n)) := by
  obtain ⟨-, -, -, -, -, hskip, hlimit, -⟩ := plan_eq_ok h
  exact ⟨bound_eq_ok hskip, bound_eq_ok hlimit⟩

end Query

namespace Act

open GraphMapper.Filter Query Record Result Sorting

variable {m : Model} {g : Graph} {es item : Entries} {p : Plan}
  {keys : List Value} {fields : Option (List Value)} {records : List Value}
  {k : Handle} {v : Value}

-- ================================================================ one element

/-- What the mapper makes of an element that it reads under some keys, for some
fields. -/
def recordUnder (m : Model) (g : Graph) (keys : List Value)
    (fields : Option (List Value)) (k : Handle) :
    Checked Value :=
  g.rowOf keys k >>= fun row => Result.ofRow m.isEdge row >>= toRecord m fields

/-- A record is made of the item of its element. -/
theorem recordUnder_of_item (h : m.Faced)
    (hitem : (g.row keys (g.element k) >>= ofRow m.isEdge) = .ok (.map item))
    (fields : Option (List Value)) : recordUnder m g keys fields k
      = .ok (.map (match fields with
          | some F => restricted F (whole m item)
          | none => whole m item)) := by
  have hgroup : recordUnder m g keys fields k
      = ((g.row keys (g.element k) >>= ofRow m.isEdge)
        >>= toRecord m fields) :=
    (bind_assoc _ _ _).symm
  rw [hgroup, hitem]
  exact toRecord_eq h fields item

/-- An element that a record is made of has an item, whatever it is asked
for. -/
theorem items_of_record (hkind : m.isEdge = (g.element k).isEdge)
    (hplain : (g.element k).IsPlain)
    (hrecord : recordUnder m g keys fields k = .ok v) :
    ∃ refs, refs.isSome = m.isEdge ∧
      ∀ keys, ∃ item,
      (g.row keys (g.element k) >>= ofRow m.isEdge) = .ok (.map item)
        ∧ Holds (g.element k) keys refs item := by
  have hgroup : ((g.row keys (g.element k) >>= ofRow m.isEdge)
      >>= toRecord m fields) = .ok v :=
    (bind_assoc _ _ _).trans hrecord
  obtain ⟨item, hitem, -⟩ := bind_eq_ok hgroup
  obtain ⟨refs, hrefs⟩ := references_of_item hkind hplain hitem
  obtain ⟨_, -, -, hkindRefs⟩ := item_of_references hkind hplain hrefs []
  refine ⟨refs, hkindRefs, fun keys => ?_⟩
  obtain ⟨item, hitem, hholds, -⟩ := item_of_references hkind hplain hrefs keys
  exact ⟨item, hitem, hholds⟩

/-- Whether an element has a row is no matter of what it is asked for. -/
theorem isOk_rowOf (keys keys' : List Value) (k : Handle) :
    (g.rowOf keys k).isOk = (g.rowOf keys' k).isOk := by
  show (g.row keys (g.element k)).isOk = (g.row keys' (g.element k)).isOk
  unfold Graph.row
  cases (g.element k).ends with
  | none => rfl
  | some ends =>
      show (g.endRows ends >>= _).isOk = (g.endRows ends >>= _).isOk
      cases g.endRows ends <;> rfl

-- ================================================================ all of them

/-- What has to be there before something can be read: the plan of the filter,
and the keys of the fields to be read and to be sorted by. -/
structure Readies (m : Model) (es : Entries) (p : Plan)
    (keys : List Value) : Prop where
  plan : plan m es = .ok p
  keys : storageKeys m p.names = .ok keys
  sortKeys : ∀ e ∈ p.order, (sortKey m e.1).isOk = true

theorem Readies.steps (h : Readies m es p keys) :
    Build.traversalFrom [] (filtered m es)
        = .ok (p.selected ++ .call .elementMap keys
          :: (sorting m p.order ++ cuts .skip p.skip
            ++ cuts .limit p.limit)) := by
  have hsort : (p.order.mapM fun e => sortKey m e.1).isOk = true := by
    rw [isOk_mapM, List.all_eq_true]
    exact h.sortKeys
  obtain ⟨ks, hks⟩ := exists_of_isOk hsort
  rw [traversalFrom_filtered, h.plan]
  show (storageKeys m p.names >>= fun keys => _) = _
  rw [h.keys]
  show (p.order.mapM (fun e => sortKey m e.1) >>= fun _ => _) = _
  rw [hks]
  rfl

theorem Lists.readies (h : Lists m g es records) :
    ∃ p keys, Readies m es p keys := by
  obtain ⟨steps, rows, fields, hsteps, -⟩ := h
  rw [traversalFrom_filtered] at hsteps
  obtain ⟨p, hplan, hsteps⟩ := bind_eq_ok hsteps
  obtain ⟨keys, hkeys, hsteps⟩ := bind_eq_ok hsteps
  obtain ⟨ks, hks, -⟩ := bind_eq_ok hsteps
  refine ⟨p, keys, hplan, hkeys, ?_⟩
  have hsort := isOk_mapM (fun e : Value × Sorting => sortKey m e.1) p.order
  rw [hks] at hsort
  exact List.all_eq_true.mp hsort.symm

/-- A read gives the records of a part of what the filter finds, in the order
that is asked for. -/
theorem lists_iff (hcolumns : hasKeyColumns m = true)
    (hkey : m.idField.isKey = true)
    (hw : (Entries.field "where" es).isProper = true)
    (hready : Readies m es p keys)
    (hfields : Projection.fields es = .ok fields)
    (htidy : ∀ k ∈ found m (Entries.field "where" es) g, g.Tidy k)
    (horder : ∀ e ∈ p.order, m.Reaches keys e.1) :
    Lists m g es records ↔ (∀ k ∈ found m (Entries.field "where" es) g,
      (g.rowOf keys k).isOk = true) ∧ ∃ sorted,
      arrange (g.sortValue m) p.order (found m (Entries.field "where" es) g)
        = .ok sorted ∧
        (p.window sorted).mapM (recordUnder m g keys fields)
          = .ok records := by
  obtain ⟨-, -, -, -, -, -, -, hselect⟩ := plan_eq_ok hready.plan
  have hselected := evaluate_selected hcolumns hkey hw hselect g
  generalize found m (Entries.field "where" es) g = ks at *
  obtain ⟨hskip, hlimit⟩ := bounds_of_plan hready.plan
  have hgo := Graph.evaluate_arranged hskip hlimit hselected htidy horder
  have hrows : (ks.mapM (g.rowOf keys)).isOk = true ↔ ∀ k ∈ ks,
      (g.rowOf keys k).isOk = true := by
    rw [isOk_mapM, List.all_eq_true]
  -- what is made of the rows is made of the elements
  have hmade : ∀ {sorted : List Handle},
      (∀ k ∈ ks, (g.rowOf keys k).isOk = true) →
      arrange (g.sortValue m) p.order ks = .ok sorted →
      (((p.window sorted).map (g.shown keys)).mapM
          (fun row => Result.ofRow m.isEdge row >>= toRecord m fields)
            = .ok records
        ↔ (p.window sorted).mapM (recordUnder m g keys fields)
            = .ok records) := by
    intro sorted hall hsorted
    have hsub : p.window sorted ⊆ ks := fun k hk =>
      (arrange_perm _ _ _ _ hsorted).subset
        ((p.window_sublist sorted).subset hk)
    have hshown : (p.window sorted).mapM (g.rowOf keys)
        = .ok ((p.window sorted).map (g.shown keys)) := by
      refine mapM_eq_ok fun k hk => ?_
      obtain ⟨row, hrow⟩ := exists_of_isOk (hall k (hsub hk))
      rw [hrow, Graph.rowOf_eq_shown hrow]
    refine ⟨fun hrecords => mapM_mapM hshown hrecords, fun hrecords => ?_⟩
    obtain ⟨rows, hrows, hrecords⟩ := mapM_bind_eq_ok hrecords
    rw [hshown] at hrows
    rw [Except.ok.inj hrows]
    exact hrecords
  constructor
  · rintro ⟨steps, rows, fields', hsteps, hout, hfields', hrecords⟩
    obtain rfl : fields = fields' :=
      Except.ok.inj (hfields.symm.trans hfields')
    rw [hready.steps] at hsteps
    rw [← Except.ok.inj hsteps, hgo] at hout
    obtain ⟨_, hall, hout⟩ := bind_eq_ok (Prod.mk.inj hout).1
    have hall' := hrows.mp (by rw [hall]; rfl)
    cases hsorted : arrange (g.sortValue m) p.order ks with
    | error e =>
        rw [hsorted] at hout
        cases hout
    | ok sorted =>
        rw [hsorted] at hout
        refine ⟨hall', sorted, rfl, (hmade hall' hsorted).mp ?_⟩
        have hsame : rows = (p.window sorted).map (g.shown keys) := by
          refine Graph.rows_inj ((Except.ok.inj hout).symm.trans ?_)
          rw [List.map_map]
          rfl
        rwa [← hsame]
  · rintro ⟨hall, sorted, hsorted, hrecords⟩
    obtain ⟨rows, hrowsOk⟩ := exists_of_isOk (hrows.mpr hall)
    refine ⟨_, (p.window sorted).map (g.shown keys), fields, hready.steps, ?_,
      hfields, (hmade hall hsorted).mpr hrecords⟩
    rw [hgo, hrowsOk, hsorted, List.map_map]
    rfl

end Act

end GraphMapper

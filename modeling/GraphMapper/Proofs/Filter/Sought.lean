/-
The element that an id names.

An operation by id puts the id under the primary key of a filter, and the
filter is read like any other. A scalar is then looked up in the index, and the
element is selected if it has the label of the model: it is the one element of
the model with an id that is the same (`target_eq_some_iff`). What is no scalar
is refused, with one exception: where a field may hold a mapping of operators,
and where the primary key has a name that stands for a row of filters or for a
filter, the id is a condition like any other, and nothing is known of how many
elements meet it (`isConstraint`).

# Two ways to find

So there are two ways to find elements, by the index and by trying all of them,
and a filter goes one of them (`found`). They are put together here: what a
filter finds is in the index, once, in its order. What it finds is also what
meets it, except for an id that is not equal to itself.

Chain: `Filter.Selection` for filters that are tried, `Value.Scalars` for ids;
used by `Filter.Lookup`, `Filter.Dropping` and the modules on queries.
-/
import GraphMapper.Proofs.Filter.Selection
import GraphMapper.Proofs.Value.Scalars
import GraphMapper.Query.Builder

namespace GraphMapper

/-- The label of a model is found in the elements that bear it. -/
theorem Model.label_equal (m : Model) : m.label.equal m.label = true := by
  have hnamed := m.named
  have hface : ∃ face, m.label.face? = some face := by
    cases hlabel : m.label with
    | text s => exact ⟨_, rfl⟩
    | symbol s =>
        rw [hlabel] at hnamed
        cases s with
        | fieldType t => exact ⟨_, rfl⟩
        | _ => cases hnamed
    | _ =>
        rw [hlabel] at hnamed
        cases hnamed
  obtain ⟨face, hface⟩ := hface
  exact (Value.equal_iff_face hface).mpr hface

namespace Filter

open Run GraphMapper.Graph

variable {m : Model} {g : Graph} {id : Value} {f : Face}

-- =========================================================== ids and filters

/-- A filter may stand here: nothing, a row, or a mapping. -/
def isFilter : Value → Bool
  | .null | .list _ | .tuple _ | .map _ => true
  | _ => false

/-- Under the primary key the value is read as a condition and not as an id: as
operators of a field, or as a filter where the name of the primary key has
another role than that of a field. -/
def isConstraint (m : Model) (id : Value) : Bool :=
  match roleOf m.idField with
  | .field =>
    match id with
    | .map _ => true
    | _ => false
  | .join _ | .index => isFilter id
  | .refused _ | .operator _ => false

private theorem groups_of_not_filter (h : isFilter id = false)
    (resolve : Value → Value) :
    ∃ e, groups resolve id = .error e := by
  cases id <;> first | exact ⟨_, rfl⟩ | cases h

/-- What is neither a scalar nor a condition is refused. -/
private theorem parse_byId (hscalar : id.isScalar = false)
    (hid : isConstraint m id = false) (resolve : Value → Value) :
    ∃ e, parse resolve (.map [(m.idField, id)]) = .error e := by
  -- an id that is neither scalar nor constraint fails under every role of the
  -- key
  have hentry : ∃ e, entryConditions resolve [(m.idField, id)] = .error e := by
    unfold isConstraint at hid
    rw [entryConditions]
    cases hrole : roleOf m.idField with
    | join junction =>
        rw [hrole] at hid
        obtain ⟨e, he⟩ := groups_of_not_filter hid resolve
        refine ⟨e, ?_⟩
        simp only [he, bind, Except.bind]
    | index =>
        rw [hrole] at hid
        obtain ⟨e, he⟩ := groups_of_not_filter hid resolve
        refine ⟨e, ?_⟩
        simp only [he, bind, Except.bind]
    | refused shown => exact ⟨_, rfl⟩
    | operator name => exact ⟨_, rfl⟩
    | field =>
        rw [hrole] at hid
        have hfield : ∃ e, parseField resolve m.idField id = .error e := by
          unfold parseField
          split
          · cases hid
          · rw [if_neg (by rw [hscalar]; exact Bool.false_ne_true)]
            cases m.idField.plain with
            | error e => exact ⟨e, rfl⟩
            | ok s => exact ⟨_, rfl⟩
        obtain ⟨e, he⟩ := hfield
        refine ⟨e, ?_⟩
        simp only [he, bind, Except.bind]
  obtain ⟨e, he⟩ := hentry
  refine ⟨e, ?_⟩
  unfold parse groups
  rw [he]
  rfl

/-- Only a scalar is sought. -/
theorem isScalar_of_sought {filter v : Value}
    (h : soughtId? m.idField filter = .ok (some v)) :
    v.isScalar = true := by
  unfold soughtId? at h
  split at h
  · obtain ⟨found, -, h⟩ := bind_eq_ok h
    exact (Option.filter_eq_some_iff.mp (Except.ok.inj h)).2
  · cases h

/-- What a filter for the primary key seeks, if that is a scalar. -/
private theorem soughtId_of_self (hkey : m.idField.isKey = true)
    (hself : m.idField.sameKey m.idField = true) (id : Value) :
    soughtId? m.idField (Query.byId m id)
      = .ok ((some id).filter Value.isScalar) := by
  have hlookup : Entries.lookup? m.idField [(m.idField, id)] = some id := by
    unfold Entries.lookup?
    rw [List.find?_cons, hself]
    rfl
  unfold soughtId? Query.byId Entries.find
  simp only [hkey, if_true, hlookup, bind, Except.bind]

private theorem soughtId_byId (hname : m.idField.face? = some f) (id : Value) :
    soughtId? m.idField (Query.byId m id)
      = .ok ((some id).filter Value.isScalar) :=
  soughtId_of_self (Value.isKey_of_face hname)
    ((Value.sameKey_iff_face hname).mpr hname) id

/-- A scalar is looked up, whatever the primary key is. -/
theorem select_sought (hkey : m.idField.isKey = true)
    (hself : m.idField.sameKey m.idField = true)
    (hscalar : id.isScalar = true) :
    select m (Query.byId m id) = .ok [source m [id], labelled m.label] := by
  unfold select
  rw [soughtId_of_self hkey hself]
  simp only [Option.filter, hscalar, if_true, bind, Except.bind]

theorem select_scalar (hname : m.idField.face? = some f)
    (hscalar : id.isScalar = true) :
    select m (Query.byId m id) = .ok [source m [id], labelled m.label] :=
  select_sought (Value.isKey_of_face hname)
    ((Value.sameKey_iff_face hname).mpr hname) hscalar

/-- A filter for the primary key selects by the id if that is a scalar, and is
refused if it is neither a scalar nor a condition. -/
theorem select_byId (hname : m.idField.face? = some f)
    (hid : isConstraint m id = false) :
    (id.isScalar = true ∧
      select m (Query.byId m id) = .ok [source m [id], labelled m.label]) ∨
      ∃ e, select m (Query.byId m id) = .error e := by
  cases hscalar : id.isScalar with
  | true => exact .inl ⟨rfl, select_scalar hname hscalar⟩
  | false =>
      obtain ⟨e, he⟩ := parse_byId hscalar hid m.conditionKey
      refine .inr ⟨e, ?_⟩
      have hgiven : (Query.byId m id).isGiven = true := rfl
      unfold select
      rw [soughtId_byId hname]
      simp only [Option.filter, hscalar, hgiven, if_true, Bool.false_eq_true,
        if_false, bind, Except.bind]
      rw [show parse m.conditionKey (Query.byId m id) = .error e from he]

-- ============================================================== what is named

/-- The element of the model that the index has under an id. -/
def target (m : Model) (id : Value) (g : Graph) : Option Handle :=
  (((stored m g).find? fun e => e.1.sameKey id).map (·.2)).filter fun h =>
    (g.element h).label.equal m.label

/-- It is the one element of the model with an id that is the same. -/
theorem target_eq_some_iff (hg : Graph.Sound [] g) (hid : id.isScalar = true)
    {h : Handle} :
    target m id g = some h
      ↔ (∃ e ∈ stored m g, e.2 = h) ∧ (g.element h).label.equal m.label = true
        ∧ (g.element h).id.same id = true := by
  have hcoherent := Sound.stored (m := m) hg
  unfold target
  rw [Option.filter_eq_some_iff, Option.map_eq_some_iff]
  constructor
  · rintro ⟨⟨e, hfound, rfl⟩, hlabel⟩
    obtain ⟨he, hsame⟩ := (hcoherent.find?_eq_iff hid).mp hfound
    exact ⟨⟨e, he, rfl⟩, hlabel, hsame⟩
  · rintro ⟨⟨e, he, rfl⟩, hlabel, hsame⟩
    exact ⟨⟨e, (hcoherent.find?_eq_iff hid).mpr ⟨he, hsame⟩, rfl⟩, hlabel⟩

private theorem isKey_of_scalar (h : id.isScalar = true) :
    id.isKey = true := by
  cases id <;> first | rfl | cases h

/-- A selection by a scalar goes on with the element that it names. -/
theorem on_sought (hid : id.isScalar = true) (rest : List Step) :
    (run .plain (source m [id] :: labelled m.label :: rest) [.start]).on g
      = (run .plain rest ((target m id g).toList.map .element)).on g := by
  have hselect : Graph.select (stored m g) [id]
      = .ok (((stored m g).find? fun e => e.1.sameKey id).map
        (·.2)).toList := by
    have hfind : Entries.find id (stored m g)
        = .ok (((stored m g).find? fun e => e.1.sameKey id).map (·.2)) :=
      if_pos (isKey_of_scalar hid)
    unfold Graph.select
    simp only [List.isEmpty_cons, Bool.false_eq_true, if_false, List.mapM_cons,
      List.mapM_nil, hfind, bind, Except.bind, pure, Except.pure]
    cases (stored m g).find? fun e => e.1.sameKey id <;> rfl
  rw [on_source hselect]
  have hkept : (keep (fun item => Run.ask fun g => g.hasLabel [m.label] item)
      (((((stored m g).find? fun e => e.1.sameKey id).map (·.2)).toList).map
        .element)).on g
        = (.ok ((target m id g).toList.map .element), g) := by
    unfold target
    cases ((stored m g).find? fun e => e.1.sameKey id).map (·.2) with
    | none => rfl
    | some h =>
        have htest : (Run.ask fun g => g.hasLabel [m.label] (.element h)).on g
            = (.ok ((g.element h).label.equal m.label), g) := by
          rw [on_ask, ← isIn_label]
          rfl
        simp only [Option.toList, List.map_cons, List.map_nil, keep, on_bind,
          htest, on_pure, Option.filter]
        by_cases hlabel : (g.element h).label.equal m.label = true
        · rw [if_pos hlabel, if_pos hlabel]
          rfl
        · rw [if_neg hlabel, if_neg hlabel]
          rfl
  exact on_bind_ok hkept

-- ============================================================== what is found

/-- The elements that a filter finds: the one that it names if it seeks an id,
else those that meet it. -/
def found (m : Model) (w : Value) (g : Graph) : List Handle :=
  match soughtId? m.idField w with
  | .ok (some id) => (target m id g).toList
  | _ => matching m w g

variable {w : Value} {cs : List Condition}

/-- A filter that is accepted goes on with what it finds, if columns can be
keys. -/
theorem evaluate_found (hcolumns : hasKeyColumns m = true)
    (hkey : m.idField.isKey = true) (hw : w.isProper = true)
    (hparse : parse m.conditionKey w = .ok cs) (g : Graph) :
    ∃ steps, select m w = .ok steps ∧
      g.evaluate steps = (.ok ((found m w g).map .element), g) := by
  have hresolves : ResolvesKeys Value.isKey m.conditionKey := fun key hkey =>
    isKey_of_asks hcolumns (resolvesKeys_conditionKey m key hkey)
  have hmeans := parse_means hresolves hw hparse
  -- the fast way looks one id up, the general way tests every stored element
  cases hsought : soughtId? m.idField w with
  | error e =>
      unfold soughtId? Entries.find at hsought
      rw [hkey] at hsought
      split at hsought <;> cases hsought
  | ok sought =>
      cases sought with
      | none =>
          obtain ⟨tests, htests, hfilters⟩ := lowerAll_filters cs hmeans.formed
          refine ⟨source m [] :: labelled m.label :: tests, ?_, ?_⟩
          · unfold select
            simp only [hsought, parse_given hparse, htests, bind, Except.bind]
          · have hall : Graph.select (stored m g) []
                = .ok ((stored m g).map (·.2)) := rfl
            have hgo := Gives.on_eq
              (evaluate_source hall ((filters_labelled m).append hfilters))
            simp only [hmeans.agrees] at hgo
            unfold found
            rw [hsought]
            exact hgo
      | some id =>
          refine ⟨[source m [id], labelled m.label], ?_, ?_⟩
          · unfold select
            simp only [hsought, bind, Except.bind]
          · unfold found
            rw [hsought]
            exact on_sought (isScalar_of_sought hsought) []

/-- What a filter finds is what meets it, unless an id that it seeks is not
equal to itself. -/
theorem found_eq_matching (hg : g.Reachable) (hkey : m.idField.isKey = true)
    (hself : m.idField.equal m.idField = true) (hw : w.isProper = true)
    (hparse : parse m.conditionKey w = .ok cs)
    (hid : ∀ v, soughtId? m.idField w = .ok (some v) → v.equal v = true) :
    found m w g = matching m w g := by
  unfold found
  split
  · next id hsought =>
    obtain ⟨hscalar, hcs⟩ := parse_sought hkey hself hsought hparse
    obtain ⟨face, hface⟩ := Value.face_of_scalar hscalar (hid id hsought)
    have hmeets : ∀ e : Element, meets m.conditionKey e .all w
        = e.id.equal id := by
      intro e
      rw [← (parse_means (resolvesKeys_conditionKey m) hw hparse).agrees, hcs]
      exact Bool.and_true _
    unfold matching target
    simp only [hmeets]
    rw [← List.filter_filter, filter_id_eq_find? hg.sound hface]
    cases (((stored m g).find? fun e => e.1.sameKey id).map (·.2)) with
    | none => rfl
    | some h =>
        by_cases hlabel : (g.element h).label.equal m.label = true <;>
          simp [hlabel]
  · rfl

/-- What is found is in the index, in the order of the index. -/
theorem found_sublist (m : Model) (w : Value) (g : Graph) :
    (found m w g).Sublist ((stored m g).map (·.2)) := by
  unfold found
  split
  · next id _ =>
    cases htarget : target m id g with
    | none => exact List.nil_sublist _
    | some h =>
        obtain ⟨hindexed, -⟩ := Option.filter_eq_some_iff.mp htarget
        obtain ⟨e, he, rfl⟩ := Option.map_eq_some_iff.mp hindexed
        exact List.singleton_sublist.mpr
          (List.mem_map_of_mem (List.mem_of_find?_eq_some he))
  · exact List.filter_sublist

/-- No element is found twice. -/
theorem nodup_found (hg : Graph.Sound [] g) (m : Model) (w : Value) :
    (found m w g).Nodup := by
  have hstored : ((stored m g).map (·.2)).Nodup :=
    List.pairwise_map.mpr ((Sound.stored hg).apart.imp fun hapart => hapart.2)
  exact hstored.sublist (found_sublist m w g)

theorem lt_size_of_stored (hg : Graph.Sound [] g) {e : Value × Handle}
    (he : e ∈ stored m g) :
    e.2 < g.size := by
  unfold stored at he
  split at he
  · exact (hg.edge e he).1
  · exact (hg.vertex e he).1

theorem lt_size_of_found (hg : Graph.Sound [] g) :
    ∀ h ∈ found m w g, h < g.size := by
  intro h hh
  obtain ⟨e, he, rfl⟩ := List.mem_map.mp ((found_sublist m w g).subset hh)
  exact lt_size_of_stored hg he

end Filter

end GraphMapper

/-
What vertices are read as.

A vertex is read through its row: its id, and the properties under the storage
keys of the model. As long as no storage key is one that rows have themselves,
and no field is named like one, the record has every field that the vertex has
a property for, with the property in normal form, and the id under the primary
key (`Shows`).

# Where fields and rows meet

Rows hold ids under `id` and labels under `label`, and the label is taken out
of every record. So a field that is stored under `label` is never read, and one
that is named `id`, or stored under it, reads the id of the element where the
element has no such property; these are left out here (`Model.Unreserved`). A
model with the primary key alone asks for no property in particular, and gets
all of them; the ones that it could take for its own are left out too
(`Model.Legible`).

Main statement: `all_shows`.
-/
import GraphMapper.Proofs.Connector.ById
import GraphMapper.Proofs.Connector.Outcomes
import GraphMapper.Proofs.Query.Whole
import GraphMapper.Proofs.Record.Reading
import GraphMapper.Proofs.Result.Records

namespace GraphMapper

namespace Model

/-- A property of a vertex can be told from what every row holds, and from the
properties of other fields than its own. -/
structure Legible (m : Model) (chosen : Entries) : Prop where
  mapping : Entries.IsMapping chosen
  noSymbol : ∀ p ∈ chosen, ∀ s, p.1 ≠ .symbol s
  free : ∀ p ∈ chosen, p.1.face? ≠ some (.text "id") ∧
    p.1.face? ≠ some (.text "label")
  owned : ∀ p ∈ chosen, ∀ f ∈ m.fields,
    p.1.face? = f.name.face? ∨ p.1.face? = f.key.face? →
    f ∈ m.others ∧ p.1.face? = f.key.face?

/-- The properties of a vertex are a mapping in which no field stands under the
member of an enumeration. If the model has no field but the primary key, none
of them has a name that a record or a row has. -/
structure Readable (m : Model) (props : Entries) : Prop where
  mapping : Entries.IsMapping props
  noSymbol : ∀ p ∈ props, ∀ f ∈ m.others, p.1.face? = f.key.face? → ∀ s,
    p.1 ≠ .symbol s
  alone : m.others = [] → ∀ p ∈ props, (∀ s, p.1 ≠ .symbol s)
    ∧ p.1.face? ≠ some (.text "id") ∧ p.1.face? ≠ some (.text "label")
    ∧ ∀ f ∈ m.fields, p.1.face? ≠ f.name.face? ∧ p.1.face? ≠ f.key.face?

variable {m : Model} {e : Element} {f : Field}

/-- Properties under different texts are readable, if the model has something
to ask for. -/
private theorem readable_of_texts {props : Entries} {names : List String}
    (hothers : m.others ≠ []) (hkeys : Entries.keys props = names.map .text)
    (hnodup : names.Nodup) : m.Readable props := by
  have hkey : ∀ p ∈ props, ∃ s, p.1 = .text s := by
    intro p hp
    have hmem : p.1 ∈ names.map Value.text := hkeys ▸ List.mem_map_of_mem hp
    obtain ⟨s, -, hs⟩ := List.mem_map.mp hmem
    exact ⟨s, hs.symm⟩
  refine ⟨Entries.isMapping_of_texts hkeys hnodup, fun p hp f _ _ s hs => ?_,
    fun hnone => absurd hnone hothers⟩
  obtain ⟨t, ht⟩ := hkey p hp
  rw [ht] at hs
  cases hs

/-- A property that is asked for is that of a field. -/
private theorem Apart.mem_readKeys (h : m.Apart) {key : Value} :
    key.isIn (Query.readKeys m) = true ↔ ∃ f ∈ m.others,
      key.face? = f.key.face? := by
  unfold Value.isIn Query.readKeys
  rw [List.any_map, List.any_eq_true]
  refine exists_congr fun f => and_congr_right fun hf => ?_
  obtain ⟨face, hface⟩ := (h.plainKey f (mem_fields_of_others hf)).faced
  rw [hface]
  exact Value.same_iff_face' hface

/-- What a model reads of a vertex is legible. -/
theorem Readable.legible (h : m.Apart) (hfree : m.RowFree)
    (hr : m.Readable e.props) :
    m.Legible (e.chosen (Query.readKeys m)) := by
  have hsub : (e.chosen (Query.readKeys m)).Sublist e.props :=
    List.filter_sublist
  have hmapping : Entries.IsMapping (e.chosen (Query.readKeys m)) :=
    hr.mapping.sublist hsub
  -- without other fields everything stored is read; with some, only their
  -- columns are
  by_cases hothers : m.others = []
  · have halone := fun p hp => hr.alone hothers p (hsub.subset hp)
    refine ⟨hmapping, fun p hp => (halone p hp).1, fun p hp => ?_,
      fun p hp f hf hface => ?_⟩
    · exact ⟨(halone p hp).2.1, (halone p hp).2.2.1⟩
    · obtain ⟨hname, hkey⟩ := (halone p hp).2.2.2 f hf
      rcases hface with hface | hface
      · exact absurd hface hname
      · exact absurd hface hkey
  · have hread : ∀ p ∈ e.chosen (Query.readKeys m), ∃ f ∈ m.others,
        p.1.face? = f.key.face? := by
      intro p hp
      have hkept := (List.mem_filter.mp hp).2
      have hsome : (Query.readKeys m).isEmpty = false := by
        unfold Query.readKeys
        cases ho : m.others with
        | nil => exact absurd ho hothers
        | cons f fs => rfl
      rw [hsome, Bool.false_or] at hkept
      exact h.mem_readKeys.mp hkept
    refine ⟨hmapping, fun p hp => ?_, fun p hp => ?_,
      fun p hp f hf hface => ?_⟩
    · obtain ⟨f, hf, hface⟩ := hread p hp
      exact hr.noSymbol p (hsub.subset hp) f hf hface
    · obtain ⟨f, hf, hface⟩ := hread p hp
      rw [hface]
      exact hfree f hf
    · obtain ⟨own, hown, hkey⟩ := hread p hp
      have hmem := mem_fields_of_others hown
      -- a column that faces a name or key of a field is that field's own
      have hsame : own = f := by
        rcases hface with hface | hface
        · by_cases hname : own.name.face? = f.name.face?
          · exact h.eq_of_name hmem hf hname
          · exact absurd (hkey.symm.trans hface)
              (h.crossed own hmem f hf hname)
        · exact h.eq_of_key hmem hf (hkey.symm.trans hface)
      rw [← hsame]
      exact ⟨hown, hkey⟩

/-- Nothing that a field has is lost by reading only what is asked for. -/
private theorem Apart.lookup?_chosen (h : m.Apart) (hf : f ∈ m.others) :
    Entries.lookup? f.key (e.chosen (Query.readKeys m))
      = Entries.lookup? f.key e.props := by
  obtain ⟨face, hface⟩ := (h.plainKey f (mem_fields_of_others hf)).faced
  refine Entries.lookup?_filter fun p _ hsame => ?_
  have hkey := (Value.sameKey_iff_face hface).mp hsame
  rw [h.mem_readKeys.mpr ⟨f, hf, hkey.trans hface.symm⟩, Bool.or_true]

end Model

namespace Record

variable {m : Model} {f : Field} {chosen : Entries} {v w : Value}

-- ============================================================ fields of a row

/-- A field reads its property if nothing else stands under its name. -/
private theorem stored?_eq_lookup? (h : m.Apart) (hf : f ∈ m.fields)
    {es : Entries}
    (hown : ∀ p ∈ es, p.1.face? = f.name.face? → p.1.face? = f.key.face?) :
    stored? es f = Entries.lookup? f.key es := by
  obtain ⟨face, hface⟩ := (h.plainKey f hf).faced
  obtain ⟨nameFace, hname⟩ := (h.plainName f hf).faced
  unfold stored? Field.key at *
  by_cases hcolumn : f.column.isGiven = true
  · simp only [hcolumn, if_true] at hown hface ⊢
    cases hfound : Entries.lookup? f.column es with
    | some v => rfl
    | none =>
        refine Entries.lookup?_eq_none hname fun p hp hp' => ?_
        have hsame := (Value.sameKey_iff_face hface).mpr
          ((hown p hp (hp'.trans hname.symm)).trans hface)
        have hnone :=
          List.find?_eq_none.mp (Option.map_eq_none_iff.mp hfound) p hp
        exact hnone hsame
  · simp only [hcolumn]
    rfl

/-- The row of a vertex with the id `v` in normal form. -/
def rowEntries (v : Value) (chosen : Entries) : Entries :=
  (.text "id", v) :: Result.normalValues chosen

private theorem mem_rowEntries {p : Value × Value}
    (hp : p ∈ rowEntries v chosen) :
    p = (.text "id", v) ∨ ∃ q ∈ chosen, q.1 = p.1 := by
  rcases List.mem_cons.mp hp with heq | hp
  · exact .inl heq
  · obtain ⟨q, hq, rfl⟩ := List.mem_map.mp hp
    exact .inr ⟨q, hq, rfl⟩

private theorem lookup?_rowEntries (h : m.Apart) (hfree : m.RowFree)
    (hf : f ∈ m.others) :
    Entries.lookup? f.key (rowEntries v chosen)
      = (Entries.lookup? f.key chosen).map Result.normalize := by
  obtain ⟨face, hface⟩ := (h.plainKey f (Model.mem_fields_of_others hf)).faced
  have hid : ¬(Value.text "id").sameKey f.key = true := fun hsame =>
    (hfree f hf).1 (hface.trans ((Value.sameKey_iff_face hface).mp hsame).symm)
  rw [rowEntries, Entries.lookup?_cons, if_neg hid,
    Result.lookup?_normalValues]

/-- A field that is named like the id in rows has a column. -/
private theorem column_of_named (hfree : m.RowFree) (hf : f ∈ m.others)
    (hnamed : f.name.face? = some (.text "id")) :
    f.column.isGiven = true ∧ f.key = f.column := by
  by_cases hgiven : f.column.isGiven = true
  · exact ⟨hgiven, if_pos hgiven⟩
  · have hkey : f.key = f.name := if_neg hgiven
    exact absurd (hkey ▸ hnamed) (hfree f hf).1

/-- Another field than the primary key reads its property, if it has one or is
not named `id`. -/
private theorem stored?_rowEntries (h : m.Apart) (hfree : m.RowFree)
    (hlegible : m.Legible chosen) (hf : f ∈ m.others)
    (hnamed : f.name.face? = some (.text "id") →
      (Entries.lookup? f.key chosen).isSome = true) :
    stored? (rowEntries v chosen) f
        = (Entries.lookup? f.key chosen).map Result.normalize := by
  have hmem := Model.mem_fields_of_others hf
  rw [← lookup?_rowEntries h hfree hf]
  by_cases hname : f.name.face? = some (.text "id")
  · obtain ⟨w, hw⟩ := Option.isSome_iff_exists.mp (hnamed hname)
    obtain ⟨hgiven, hkey⟩ := column_of_named hfree hf hname
    rw [stored?, if_pos hgiven, ← hkey, lookup?_rowEntries h hfree hf, hw]
    rfl
  · refine stored?_eq_lookup? h hmem fun p hp hown => ?_
    rcases mem_rowEntries hp with rfl | ⟨q, hq, hkey⟩
    · exact absurd hown.symm hname
    · rw [← hkey] at hown ⊢
      exact (hlegible.owned q hq f hmem (.inl hown)).2

/-- One that has none and is named `id` reads the id of the vertex. -/
private theorem stored?_rowEntries_named (h : m.Apart) (hfree : m.RowFree)
    (hf : f ∈ m.others) (hname : f.name.face? = some (.text "id"))
    (hnone : Entries.lookup? f.key chosen = none) :
    stored? (rowEntries v chosen) f = some v := by
  obtain ⟨hgiven, hkey⟩ := column_of_named hfree hf hname
  rw [stored?, if_pos hgiven, ← hkey, lookup?_rowEntries h hfree hf, hnone,
    Option.map_none, Option.none_or, rowEntries, Entries.lookup?_cons,
    if_pos ((Value.sameKey_iff_face hname).mpr rfl)]

/-- The primary key can read nothing but the id. -/
private theorem stored?_rowEntries_id (h : m.Apart)
    (hlegible : m.Legible chosen)
    (hf : f ∈ m.fields) (hid : f.name.face? = m.idField.face?)
    (hv : stored? (rowEntries v chosen) f = some w) :
    w = v := by
  have hfound : ∀ {key : Value},
      key.face? = f.name.face? ∨ key.face? = f.key.face? →
      (∃ face, key.face? = some face) →
      Entries.lookup? key (rowEntries v chosen) = some w → w = v := by
    rintro key hkey ⟨face, hface⟩ hlookup
    obtain ⟨p, hp, hsame, rfl⟩ := Entries.mem_of_lookup? hlookup
    rcases mem_rowEntries hp with rfl | ⟨q, hq, hqp⟩
    · rfl
    · have hq' : q.1.face? = key.face? := by
        rw [hqp, hface]
        exact (Value.sameKey_iff_face hface).mp hsame
      have howned := (hlegible.owned q hq f hf (by rw [hq']; exact hkey)).1
      exact absurd hid (h.face_ne_of_others howned)
  have hname := (h.plainName f hf).faced
  have hkey := (h.plainKey f hf).faced
  unfold stored? at hv
  by_cases hcolumn : f.column.isGiven = true
  · have hcol : f.key = f.column := if_pos hcolumn
    rw [if_pos hcolumn] at hv
    rcases Option.or_eq_some_iff.mp hv with hv | ⟨-, hv⟩
    · exact hfound (.inr (by rw [hcol])) (hcol ▸ hkey) hv
    · exact hfound (.inl rfl) hname hv
  · rw [if_neg hcolumn, Option.none_or] at hv
    exact hfound (.inl rfl) hname hv

-- ================================================================== records

/-- The record of a vertex with the id `v` in normal form. -/
def ofVertex (m : Model) (v : Value) (chosen : Entries) : Entries :=
  Entries.insert m.idField v (readFields (rowEntries v chosen) m.fields)

private theorem toRecord_rowEntries (hvertex : m.isEdge = false) (h : m.Apart)
    (hlegible : m.Legible chosen) (v : Value) :
    Act.toRecord m none (.map (rowEntries v chosen))
      = .ok (.map (ofVertex m v chosen)) := by
  obtain ⟨face, hface⟩ := h.plainId.faced
  have hget : Entries.lookup? (.text "id") (rowEntries v chosen) = some v := by
    rw [rowEntries, Entries.lookup?_cons,
      if_pos ((Value.sameKey_iff_face rfl).mpr rfl)]
  have hcopied :
        (if !Entries.has m.idField (readFields (rowEntries v chosen)
          m.fields) && Entries.has (.text "id") (rowEntries v chosen) then
      Entries.insert m.idField (Entries.get (.text "id") (rowEntries v chosen))
        (readFields (rowEntries v chosen) m.fields)
      else readFields (rowEntries v chosen) m.fields)
          = ofVertex m v chosen := by
    unfold ofVertex Entries.get
    rw [Entries.has_eq_isSome, Entries.has_eq_isSome, hget]
    cases hown : Entries.lookup? m.idField
        (readFields (rowEntries v chosen) m.fields) with
    | none => rfl
    | some w =>
        -- what is there already is the id
        obtain ⟨e, he, hsame, -⟩ := Entries.mem_of_lookup? hown
        obtain ⟨f, hf, hname, -⟩ := mem_readFields.mp he
        have hid : f.name.face? = some face := by
          rw [← hname]
          exact (Value.sameKey_iff_face hface).mp hsame
        have hread := lookup?_readFields h.toFaced hf (rowEntries v chosen)
        rw [← Entries.lookup?_congr hface hid, hown] at hread
        have hw := stored?_rowEntries_id h hlegible hf
          (hid.trans hface.symm) hread.symm
        rw [hw] at hown
        exact (Entries.insert_of_lookup? hown).symm
  unfold Act.toRecord
  rw [fromStorage_eq h.toFaced]
  simp only [hvertex, Bool.false_eq_true, if_false, bind, Except.bind]
  rw [hcopied]

/-- The record has the id under the primary key and, under every other field,
what the vertex has under its storage key, in normal form. There is nothing
else in it. -/
structure Shows (m : Model) (e : Element) (record : Entries) : Prop where
  id : Entries.lookup? m.idField record = some (Result.normalize e.id)
  fields : ∀ f ∈ m.others,
    Entries.lookup? f.name record
      = (Entries.lookup? f.key e.props).map Result.normalize
  declared : ∀ p ∈ record, p.1 = m.idField ∨ ∃ f ∈ m.fields, p.1 = f.name

/-- The record that a vertex is read as. -/
def read (m : Model) (e : Element) : Entries :=
  ofVertex m (Result.normalize e.id) (e.chosen (Query.readKeys m))

section

variable {e : Element} (h : m.Apart)

include h

theorem distinct_read (e : Element) : Entries.Distinct (read m e) := by
  obtain ⟨face, hface⟩ := h.plainId.faced
  exact (distinct_readFields h.facedName h.names).put hface _

theorem lookup?_read_id (e : Element) :
    Entries.lookup? m.idField (read m e) = some (Result.normalize e.id) := by
  obtain ⟨face, hface⟩ := h.plainId.faced
  exact Entries.lookup?_insert_self hface _ _

/-- Under another field there is what it reads from the row. -/
private theorem lookup?_read_eq (hf : f ∈ m.others) :
    Entries.lookup? f.name (read m e)
    = stored? (rowEntries (Result.normalize e.id)
      (e.chosen (Query.readKeys m))) f := by
  have hmem := Model.mem_fields_of_others hf
  obtain ⟨face, hface⟩ := (h.plainName f hmem).faced
  have hapart : m.idField.face? ≠ some face := by
    rw [← hface]
    exact (h.face_ne_of_others hf).symm
  unfold read ofVertex
  rw [Entries.lookup?_insert_of_ne hface hapart,
    lookup?_readFields h.toFaced hmem]

theorem lookup?_read (hfree : m.RowFree) (hr : m.Readable e.props)
    (hf : f ∈ m.others)
    (hnamed : f.name.face? = some (.text "id") →
      (Entries.lookup? f.key e.props).isSome = true) :
    Entries.lookup? f.name (read m e)
        = (Entries.lookup? f.key e.props).map Result.normalize := by
  have hchosen := h.lookup?_chosen (e := e) hf
  rw [lookup?_read_eq h hf,
    stored?_rowEntries h hfree (hr.legible h hfree) hf (hchosen ▸ hnamed),
    hchosen]

/-- A field that is named `id` shows the id of a vertex without a property for
it. -/
theorem lookup?_read_named (hfree : m.RowFree) (hf : f ∈ m.others)
    (hname : f.name.face? = some (.text "id"))
    (hnone : Entries.lookup? f.key e.props = none) :
    Entries.lookup? f.name (read m e) = some (Result.normalize e.id) := by
  have hchosen := h.lookup?_chosen (e := e) hf
  rw [lookup?_read_eq h hf,
    stored?_rowEntries_named h hfree hf hname (hchosen.trans hnone)]

omit h in
/-- There is nothing in a record but declared fields and the primary key. -/
theorem mem_read {p : Value × Value} (hp : p ∈ read m e) :
    p.1 = m.idField ∨ ∃ f ∈ m.fields, p.1 = f.name := by
  have hdeclared : ∀ q ∈ readFields (rowEntries (Result.normalize e.id)
      (e.chosen (Query.readKeys m))) m.fields, ∃ f ∈ m.fields,
      q.1 = f.name := by
    intro q hq
    obtain ⟨f, hf, hname, -⟩ := mem_readFields.mp hq
    exact ⟨f, hf, hname⟩
  rcases Entries.mem_insert hp with hp | ⟨-, hkey | ⟨-, q, hq, hkey⟩⟩
  · exact .inr (hdeclared p hp)
  · exact .inl hkey
  · obtain ⟨f, hf, hname⟩ := hdeclared q hq
    exact .inr ⟨f, hf, hkey.symm.trans hname⟩

theorem shows_read (hunreserved : m.Unreserved) (hr : m.Readable e.props) :
    Shows m e (read m e) :=
  ⟨lookup?_read_id h e, fun f hf =>
      lookup?_read h hunreserved.rowFree hr hf fun hname =>
    absurd hname (hunreserved.name f hf), fun _ hp => mem_read hp⟩

end

end Record

-- ================================================================ all records

namespace Act

open GraphMapper.Filter

variable {name : String} {m : Model} {g : Graph}

/-- A query that gives rows, and records that can be made of these, give the
records. -/
theorem does_rows (hname : name ≠ "") {filter : Value} {es : Entries}
    {steps : List Step} {rows : List Entries} {fields : Option (List Value)}
    {records : List Value}
    (hfilter : (if filter.isGiven then filter
      else .map [(.text "where", .map [])]) = .map es)
      (hfields : Projection.fields es = .ok fields)
    (hsteps : Build.traversalFrom [] (Query.query m (.map es)) = .ok steps)
    (hgo : g.evaluate steps = (.ok (rows.map .row), g))
    (hrecords : rows.mapM
      (fun row => Result.ofRow m.isEdge row >>= toRecord m fields)
        = .ok records) :
    Does name m g (all (some name) filter .null) (.list records) g := by
  obtain ⟨items, hitems, hrecords⟩ := mapM_bind_eq_ok hrecords
  have hpresent : Options.standard.finish (some m) .toList
      (.list (rows.map .map)) = .ok (.list items) := by
    show Result.present m.isEdge (.list (rows.map .map)) = _
    rw [Result.present_rows, hitems]
    rfl
  refine (does_check (a := Options.standard) rfl).bind (Does.observed ?_ _ _)
  refine does_model.bind ?_
  rw [hfilter]
  refine (does_build hsteps).bind ?_
  refine (does_execute hname rfl hgo (Graph.complete_rows g _) hpresent).bind
    ?_
  refine (does_check (r := (Value.map es).entries >>= Projection.fields)
    hfields).bind ?_
  exact (does_check (rowsOf_list _)).bind
    ((does_check hrecords).bind (does_pure _))

/-- A vertex whose properties the model can read. -/
def Sees (m : Model) (g : Graph) (k : Handle) : Prop :=
  (g.element k).isEdge = false ∧ m.Readable (g.element k).props

/-- The row of a vertex with what a model asks for. -/
def rowFor (m : Model) (g : Graph) (k : Handle) : Entries :=
  Graph.reference (g.element k) ++ (g.element k).chosen (Query.readKeys m)

/-- A row as it reaches the mapper. -/
def itemFor (m : Model) (g : Graph) (k : Handle) : Value :=
  .map (Record.rowEntries (Result.normalize (g.element k).id)
    ((g.element k).chosen (Query.readKeys m)))

section

variable (hvertex : m.isEdge = false) (h : m.Apart)

include hvertex h

section

variable (hfree : m.RowFree)

include hfree

/-- The way of a vertex from the graph to the application. -/
theorem record_of_vertex {k : Handle} (hk : Sees m g k) :
    g.rowOf (Query.readKeys m) k = .ok (rowFor m g k) ∧
      Result.ofRow m.isEdge (rowFor m g k) = .ok (itemFor m g k) ∧
      toRecord m none (itemFor m g k)
        = .ok (.map (Record.read m (g.element k))) := by
  have hlegible := hk.2.legible h hfree
  have hends : (g.element k).ends = none := by
    simpa [Element.isEdge] using hk.1
  refine ⟨Graph.row_vertex hends hlegible.mapping hlegible.noSymbol, ?_,
    Record.toRecord_rowEntries hvertex h hlegible _⟩
  rw [hvertex]
  exact Result.ofRow_vertex hlegible.mapping hlegible.free hlegible.noSymbol

/-- A query that finds vertices, in whatever way, gives their records. -/
theorem does_all (hname : name ≠ "") {filter : Value} {es : Entries}
    {steps : List Step} {ks : List Handle} (hks : ∀ k ∈ ks, Sees m g k)
    (hfilter : (if filter.isGiven then filter
      else .map [(.text "where", .map [])]) = .map es)
    (hfields : Entries.field "fields" es = .null)
    (hsteps : Build.traversalFrom [] (Query.query m (.map es)) = .ok steps)
    (hgo : g.evaluate steps = (.ok ((ks.map (rowFor m g)).map .row), g)) :
    Does name m g (all (some name) filter .null)
      (.list (ks.map fun k => .map (Record.read m (g.element k)))) g := by
  have hprojection : Projection.fields es = .ok none := by
    unfold Projection.fields
    rw [hfields]
  refine does_rows hname hfilter hprojection hsteps hgo ?_
  rw [List.mapM_map]
  refine mapM_eq_ok fun k hk => ?_
  obtain ⟨-, hitem, hrecord⟩ := record_of_vertex hvertex h hfree (hks k hk)
  rw [Function.comp_apply, hitem]
  exact hrecord

end

/-- All records of a model are those of the vertices with its label, in the
order in which these are stored, and each of them shows its vertex. -/
theorem all_shows (hunreserved : m.Unreserved) (hname : name ≠ "")
    (hg : g.Reachable)
    (hreadable : ∀ e ∈ g.vertexList, e.label.equal m.label = true →
      m.Readable e.props)
    {c : Connector} (hc : Ready name m g c) :
    ∃ records c',
      all (some name) .null .null c = (.ok (.list (records.map .map)), c') ∧
      Ready name m g c' ∧
      List.Forall₂ (Record.Shows m) (g.vertexList.filter fun e =>
        e.label.equal m.label) records := by
  -- the elements a bare request finds are the vertices of the label, in store
  -- order
  have hbearers : (bearers m g).map g.element
      = g.vertexList.filter fun e => e.label.equal m.label := by
    unfold bearers stored Graph.vertexList
    rw [hvertex, List.filter_map, List.map_map, List.filter_map]
    rfl
  have hsees : ∀ k ∈ bearers m g, Sees m g k := by
    intro k hk
    obtain ⟨hstored, hlabel⟩ := List.mem_filter.mp hk
    unfold stored at hstored
    rw [hvertex] at hstored
    obtain ⟨entry, hentry, rfl⟩ := List.mem_map.mp hstored
    exact ⟨(hg.sound.vertex entry hentry).2,
      hreadable _ (List.mem_map.mpr ⟨entry, hentry, rfl⟩) hlabel⟩
  have hrows : (bearers m g).mapM (g.rowOf (Query.readKeys m))
      = .ok ((bearers m g).map (rowFor m g)) :=
    mapM_eq_ok fun k hk =>
      (record_of_vertex hvertex h hunreserved.rowFree (hsees k hk)).1
  have hsteps : Build.traversalFrom []
      (Query.query m (.map [(.text "where", .map [])]))
        = .ok ([Filter.source m [], labelled m.label]
          ++ .call .elementMap (Query.readKeys m)
          :: (Query.cuts .skip none ++ Query.cuts .limit none)) :=
    Query.query_whole h (List.cons_ne_nil _ _) rfl rfl rfl rfl select_empty
  have hall : Does name m g (all (some name) .null .null)
      (.list ((bearers m g).map fun k => .map (Record.read m (g.element k))))
        g :=
    does_all hvertex h hunreserved.rowFree hname hsees rfl rfl hsteps
      (evaluate_all hrows)
  obtain ⟨c', hgo, hc'⟩ := hall c hc
  refine ⟨(bearers m g).map fun k => Record.read m (g.element k),
    c', ?_, hc', ?_⟩
  · rw [List.map_map]
    exact hgo
  · rw [← hbearers, List.forall₂_map_left_iff, List.forall₂_map_right_iff,
      List.forall₂_same]
    exact fun k hk => Record.shows_read h hunreserved (hsees k hk).2

end

/-- Both persons are read, the second one without an age. -/
theorem all_shows_sample : ∃ ann bob c',
    all (some "Person") .null .null sampleConnector
      = (.ok (.list [.map ann, .map bob]), c') ∧
      Entries.lookup? (.text "id") ann = some (.text "p1") ∧
      Entries.lookup? (.text "name") bob = some (.text "Bob") ∧
      Entries.lookup? (.text "age") bob = none := by
  -- each hypothesis holds of the sample by evaluation
  have hunreserved : sampleModel.Unreserved := ⟨by decide, by decide⟩
  have hreadable : ∀ e ∈ sampleGraph.vertexList,
      sampleModel.Readable e.props := by
    intro e he
    have hall : sampleGraph.vertexList.map (fun e => Entries.keys e.props)
        = [["age", "full_name"], ["full_name"], ["age", "full_name"]].map
          (List.map .text) := rfl
    have hmem : Entries.keys e.props
        ∈ sampleGraph.vertexList.map fun e => Entries.keys e.props :=
      List.mem_map.mpr ⟨e, he, rfl⟩
    rw [hall] at hmem
    obtain ⟨names, hnames, hkeys⟩ := List.mem_map.mp hmem
    have hnodup : names.Nodup := by
      have hdistinct :
          ∀ names ∈ [["age", "full_name"], ["full_name"],
            ["age", "full_name"]], names.Nodup := by decide
      exact hdistinct names hnames
    exact Model.readable_of_texts (List.cons_ne_nil _ _) hkeys.symm hnodup
  obtain ⟨records, c', hgo, -, hshows⟩ :=
    all_shows rfl sampleModel_apart hunreserved (show "Person" ≠ "" by decide)
      sampleGraph_reachable (fun e he _ => hreadable e he)
    (c := sampleConnector) ⟨⟨rfl, rfl, rfl⟩, rfl⟩
  have hpersons :
      (sampleGraph.vertexList.filter fun e => e.label.equal sampleModel.label)
        = sampleGraph.vertexList.take 2 := rfl
  rw [hpersons] at hshows
  match records, hshows with
  | [ann, bob], .cons hann (.cons hbob .nil) =>
    exact ⟨ann, bob, c', hgo, hann.id,
      hbob.fields _ (List.mem_cons_of_mem _ List.mem_cons_self),
      hbob.fields _ List.mem_cons_self⟩

end Act

end GraphMapper

/-
Reading some fields and reading all of them.

A query for some fields finds the same elements as the query for all of them,
and sorts and cuts them alike, as long as it asks for what it sorts by
(`Narrows`). Of each element it makes the same record, less the entries that
are not asked for (`recordUnder_narrowed`). So its records are those of the
query for all fields, one by one, without what is not among the fields.

That is so unless a query for nothing but the primary key is answered with all
properties, and one of them has its name (`IdKept`).

Main statement: `all_narrowed`.

Chain: `Connector.Arranged` for reads in general; `Record.Projection` has the
same for one record.
-/
import GraphMapper.Proofs.Connector.Arranged

namespace GraphMapper

/-- What is made of things one by one can be made of what stands behind it. -/
private theorem mapM_behind {α β γ δ : Type} {f : α → Checked β}
    {f' : α → Checked γ} {a : δ → β} {b : δ → γ} {xs : List α} {ys : List β}
    (h : xs.mapM f = .ok ys)
    (hbehind : ∀ x ∈ xs, ∀ y, f x = .ok y → ∃ z, y = a z ∧ f' x = .ok (b z)) :
    ∃ zs : List δ, ys = zs.map a ∧ xs.mapM f' = .ok (zs.map b) := by
  induction xs generalizing ys with
  | nil =>
      obtain rfl : [] = ys := Except.ok.inj h
      exact ⟨[], rfl, rfl⟩
  | cons x xs ih =>
      rw [List.mapM_cons] at h
      obtain ⟨y, hy, h⟩ := bind_eq_ok h
      obtain ⟨rest, hrest, h⟩ := bind_eq_ok h
      obtain rfl : y :: rest = ys := Except.ok.inj h
      obtain ⟨z, rfl, hz⟩ := hbehind x List.mem_cons_self y hy
      obtain ⟨zs, rfl, hzs⟩ :=
        ih hrest fun x hx => hbehind x (List.mem_cons_of_mem _ hx)
      refine ⟨z :: zs, rfl, ?_⟩
      rw [List.mapM_cons, hz, hzs]
      rfl

namespace Filter

variable {m : Model} {g : Graph} {es : Entries}

/-- A filter that may be empty finds what it finds when it is read. -/
private theorem found_stated :
    found m (Entries.field "where" (Query.stated es)) g
    = found m (Entries.field "where" es) g := by
  cases es with
  | cons e es => rfl
  | nil =>
      show matching m (.map []) g = matching m .null g
      unfold matching
      refine List.filter_congr fun h _ => ?_
      rw [meets_of_not_given _ rfl, meets_of_not_given _ rfl]

private theorem isProper_stated
    (h : (Entries.field "where" es).isProper = true) :
    (Entries.field "where" (Query.stated es)).isProper = true := by
  cases es with
  | cons e es => exact h
  | nil => rfl

end Filter

namespace Act

open GraphMapper.Filter Query Record Result

variable {name : String} {m : Model} {g : Graph} {c : Connector}
  {es es' : Entries} {F : List Value} {keys keys' : List Value}
  {fields : Option (List Value)} {k : Handle} {item own : Entries} {v : Value}

-- ==================================================================== records

/-- Of an element there is the same record for some fields as for all of them,
less what is not asked for. -/
theorem recordUnder_narrowed (h : m.Apart) (hs : m.Storable)
    (hkind : m.isEdge = (g.element k).isEdge) (hplain : (g.element k).IsPlain)
    (hid : IdKept m F (g.element k))
    (hrecord : recordUnder m g (readKeys m) none k = .ok v) :
    ∃ own : Entries, v = .map own
      ∧ recordUnder m g (keysFor m F) (some F) k
        = .ok (.map (restricted F own)) := by
  obtain ⟨refs, hrefs, hitems⟩ := items_of_record hkind hplain hrecord
  obtain ⟨item, hitem, hall⟩ := hitems (readKeys m)
  obtain ⟨item', hitem', hsome⟩ := hitems (keysFor m F)
  obtain ⟨idFace, hidFace⟩ := h.plainId.faced
  refine ⟨whole m item, ?_, ?_⟩
  · rw [recordUnder_of_item h.toFaced hitem none] at hrecord
    exact (Except.ok.inj hrecord).symm
  · have hagree := agree_of_holds h hs hid hrefs hall hsome
    rw [recordUnder_of_item h.toFaced hitem' (some F)]
    exact congrArg (fun own => Except.ok (Value.map own))
      (restricted_whole hidFace hagree).symm

-- ==================================================================== queries

/-- A query that asks for some fields, where another one asks for all of them.
It has to ask for what it sorts by, which are fields of the model. -/
structure Narrows (m : Model) (g : Graph) (F : List Value)
    (es es' : Entries) : Prop where
  unnamed : Projection.fields es = .ok none
  named : Projection.fields es' = .ok (some F)
  keys : ∀ n ∈ F, n.isKey = true
  order : Query.orderOf es' = Query.orderOf es
  skip : Entries.field "skip" es' = Entries.field "skip" es
  limit : Entries.field "limit" es' = Entries.field "limit" es
  selected : Filter.select m (Entries.field "where" es')
    = Filter.select m (Entries.field "where" es)
  found : found m (Entries.field "where" es') g
      = found m (Entries.field "where" es) g
  sorted : ∀ order, Query.orderOf es = .ok order → ∀ e ∈ order,
    e.1.isIn F = true ∧ m.Declares e.1

/-- A filter that has an entry is read as it is. -/
private theorem stated_insert (key v : Value) (es : Entries) :
    stated (Entries.insert key v es) = Entries.insert key v es := by
  unfold stated
  rw [if_neg]
  cases es with
  | nil => exact Bool.false_ne_true
  | cons e es =>
      unfold Entries.insert
      split <;> exact Bool.false_ne_true

/-- With fields put into it, a filter without any asks for these. -/
private theorem narrows_insert (hnames : Projection.names v = .ok F)
    (hsome : F ≠ []) (hkeys : ∀ n ∈ F, n.isKey = true)
    (hnone : Entries.field "fields" es = .null)
    (hsorted : ∀ order, Query.orderOf es = .ok order → ∀ e ∈ order,
      e.1.isIn F = true ∧ m.Declares e.1) :
    Narrows m g F (stated es) (Entries.insert (.text "fields") v es) := by
  have hsame : ∀ key : String, key ≠ "fields" →
      Entries.field key (Entries.insert (.text "fields") v es)
        = Entries.field key es :=
    fun key hne => field_insert_of_ne hne v
  have hstated : Query.orderOf (stated es) = Query.orderOf es := by
    unfold Query.orderOf
    rw [field_stated (by decide)]
  refine ⟨?_, ?_, hkeys, ?_, ?_, ?_, ?_, ?_, hstated.symm ▸ hsorted⟩
  · unfold Projection.fields
    rw [field_stated (by decide), hnone]
  · have hv : v ≠ .null := by
      rintro rfl
      cases hnames
    unfold Projection.fields
    rw [field_insert_self]
    split
    · exact absurd rfl hv
    · rw [hnames]
      show Except.ok (if F.isEmpty then none else some F) = _
      rw [if_neg (by rwa [List.isEmpty_iff])]
  · rw [hstated]
    unfold Query.orderOf
    rw [hsame _ (by decide)]
  · rw [hsame _ (by decide), field_stated (by decide)]
  · rw [hsame _ (by decide), field_stated (by decide)]
  · rw [hsame _ (by decide), select_stated]
  · rw [hsame _ (by decide), found_stated]

/-- What a query for some fields needs is there if it is there for all of
them. -/
theorem Narrows.readies (hn : Narrows m g F es es') {p : Plan}
    (hready : Readies m es p keys) :
    Readies m es' { p with names := F } (keysFor m F) := by
  obtain ⟨fields, -, -, horder, -, hskip, hlimit, hselect⟩ :=
    plan_eq_ok hready.plan
  have hcheck : checkOrder p.order (some F) = .ok () := by
    unfold checkOrder
    have hnone : p.order.find? (fun e => !e.1.isIn F) = none := by
      refine List.find?_eq_none.mpr fun e he => ?_
      rw [(hn.sorted _ horder e he).1]
      decide
    simp only [hnone]
  refine ⟨?_, storageKeys_eq hn.keys, hready.sortKeys⟩
  unfold plan
  rw [hn.named, hn.order, horder, hn.skip, hskip, hn.limit, hlimit,
    hn.selected, hselect]
  show (checkOrder p.order (some F) >>= _) = _
  rw [hcheck]
  rfl

/-- What a query sorts by is asked for by both. -/
theorem Narrows.reaches (h : m.Apart) (hn : Narrows m g F es es')
    {order : List (Value × Sorting)} (horder : Query.orderOf es = .ok order)
    {e : Value × Sorting} (he : e ∈ order) :
    m.Reaches (readKeys m) e.1 ∧ m.Reaches (keysFor m F) e.1 := by
  obtain ⟨hin, hdeclared⟩ := hn.sorted _ horder e he
  refine ⟨h.reaches hdeclared fun f hf _ _ hkey => asks_readKeys hf hkey,
    h.reaches hdeclared fun f hf hname face hkey =>
      asks_keysFor_of_mem h hf ?_ hkey⟩
  obtain ⟨nameFace, hface⟩ :=
    (h.plainName f (Model.mem_fields_of_others hf)).faced
  rw [Value.isIn_of_face hface (hname.symm.trans hface), hin]

/-- A query for some fields gives the records for all of them, less what is not
asked for. -/
private theorem Lists.narrowed (h : m.Apart) (hs : m.Storable)
    (hg : g.Reachable) (hw : (Entries.field "where" es).isProper = true)
    (hw' : (Entries.field "where" es').isProper = true)
    (hn : Narrows m g F es es')
    (helements : ∀ k ∈ found m (Entries.field "where" es) g,
      (g.element k).IsPlain ∧ IdKept m F (g.element k)) {records : List Value}
    (hlists : Lists m g es records) : ∃ owns : List Entries,
      records = owns.map .map ∧
      Lists m g es' (owns.map fun own => .map (restricted F own)) := by
  have hcolumns := h.hasKeyColumns
  have hkey := h.plainId.isKey
  obtain ⟨p, keys, hready⟩ := hlists.readies
  obtain ⟨fields, hfields, hnames, horder, -⟩ := plan_eq_ok hready.plan
  obtain rfl : none = fields := Except.ok.inj (hn.unnamed.symm.trans hfields)
  obtain rfl : keys = readKeys m := by
    have hkeys := hready.keys
    rw [hnames] at hkeys
    exact Except.ok.inj (hkeys.symm.trans (storageKeys_fieldNames h))
  -- the same elements are found, so both requests sort and window alike
  have htidy : ∀ k ∈ found m (Entries.field "where" es) g, g.Tidy k :=
      fun k hk =>
    ⟨(helements k hk).1.mapping, fun p hp =>
      (helements k hk).1.noSymbol p hp _⟩
  have hreaches := fun e he => Narrows.reaches h hn horder (e := e) he
  obtain ⟨hrows, sorted, hsorted, hrecords⟩ :=
    (lists_iff hcolumns hkey hw hready hn.unnamed htidy fun e he =>
      (hreaches e he).1).mp hlists
  have hsub : p.window sorted ⊆ found m (Entries.field "where" es) g :=
      fun k hk =>
    (Sorting.arrange_perm _ _ _ _ hsorted).subset
      ((p.window_sublist sorted).subset hk)
  -- record by record: what is read under the names is what was read,
  -- restricted to them
  obtain ⟨owns, rfl, howns⟩ := mapM_behind (a := Value.map)
    (b := fun own => Value.map (restricted F own)) hrecords
    fun k hk v hv =>
      recordUnder_narrowed h hs (isEdge_found hg.sound (hsub hk))
      (helements k (hsub hk)).1 (helements k (hsub hk)).2 hv
  refine ⟨owns, rfl,
    (lists_iff hcolumns hkey hw' (hn.readies hready) hn.named
      (hn.found ▸ htidy) fun e he =>
        (hreaches e he).2).mpr ⟨?_, sorted, ?_, howns⟩⟩
  · rw [hn.found]
    intro k hk
    rw [isOk_rowOf _ (readKeys m)]
    exact hrows k hk
  · rw [hn.found]
    exact hsorted

-- ======================================================================= main

/-- A read of some fields is the read of all of them without what is not asked
for.

If a filter that names no fields is accepted, then with a list of fields it
gives the same records in the same order, each without the entries that are not
in the list. The list may have any names, also twice, but has to have what the
filter sorts by. The filter may select, sort and cut in any way. This is about
vertices and edges whose properties have plain names other than `id`; and where
the primary key is all that is asked for, though the model has other fields, or
the other way round, none of them has its name. -/
theorem all_narrowed (hname : name ≠ "") (h : m.Apart) (hs : m.Storable)
    (hg : g.Reachable) (hc : Ready name m g c)
    (hw : (Entries.field "where" es).isProper = true)
    (hnone : Entries.field "fields" es = .null)
    (hnames : Projection.names v = .ok F) (hsome : F ≠ [])
    (hkeys : ∀ n ∈ F, n.isKey = true)
    (hsorted : ∀ order, Query.orderOf es = .ok order → ∀ e ∈ order,
      e.1.isIn F = true ∧ m.Declares e.1)
    (helements : ∀ k ∈ found m (Entries.field "where" es) g,
      (g.element k).IsPlain ∧ IdKept m F (g.element k))
    (hall : (all (some name) (.map es) .null c).1.isOk = true) :
    ∃ owns : List Entries,
      (all (some name) (.map es) .null c).1 = .ok (.list (owns.map .map)) ∧
      (all (some name) (.map (Entries.insert (.text "fields") v es)) .null c).1
        = .ok (.list (owns.map fun own => .map (restricted F own))) := by
  obtain ⟨records, hlists⟩ := (isOk_all_iff hname hc).mp hall
  have hn : Narrows m g F (stated es) (Entries.insert (.text "fields") v es) :=
    narrows_insert hnames hsome hkeys hnone hsorted
  have hw' : (Entries.field "where"
      (Entries.insert (.text "fields") v es)).isProper = true := by
    rw [field_insert_of_ne (by decide)]
    exact hw
  obtain ⟨owns, rfl, hnarrowed⟩ :=
    hlists.narrowed h hs hg (isProper_stated hw) hw' hn fun k hk =>
      helements k (by rwa [found_stated] at hk)
  rw [← stated_insert] at hnarrowed
  obtain ⟨c₁, hgo, -⟩ := hlists.does_all hname c hc
  obtain ⟨c₂, hgo', -⟩ := hnarrowed.does_all hname c hc
  exact ⟨owns, congrArg Prod.fst hgo, congrArg Prod.fst hgo'⟩

/-- Of two persons, sorted by their names, only these are shown. -/
theorem all_narrowed_sample : ∃ owns : List Entries,
    (all (some "Person") (.map [(.text "order", .text "name DESC")]) .null
      sampleConnector).1
        = .ok (.list (owns.map .map)) ∧
      (all (some "Person") (.map [(.text "order", .text "name DESC"),
          (.text "fields", .list [.text "name", .text "nickname"])]) .null
            sampleConnector).1
        = .ok (.list (owns.map fun own =>
            .map (restricted [.text "name", .text "nickname"] own))) := by
  have hstorable : sampleModel.Storable :=
    ⟨by unfold Model.RowFree; decide, by decide, by decide⟩
  have hdone :
      (all (some "Person") (.map [(.text "order", .text "name DESC")]) .null
        sampleConnector).1.isOk = true := by decide +kernel
  have hentry : Order.parseEntry (.text "name DESC")
      = .ok (.text "name", .descending) :=
    Order.parseEntry_of_words (by decide +kernel)
      (by decide +kernel : Order.direction? "DESC" = _)
  have horder : Query.orderOf [(.text "order", .text "name DESC")]
      = .ok [(.text "name", .descending)] := by
    show [Value.text "name DESC"].mapM Order.parseEntry = _
    rw [List.mapM_cons, hentry]
    rfl
  have hready : Ready "Person" sampleModel sampleGraph sampleConnector :=
    ⟨⟨rfl, rfl, rfl⟩, rfl⟩
  have hnone : Entries.field "fields" [(.text "order", .text "name DESC")]
      = .null := rfl
  have hnames : Projection.names (.list [.text "name", .text "nickname"])
      = .ok [.text "name", .text "nickname"] := rfl
  -- every hypothesis but the last four is a check of the definition
  refine all_narrowed (show "Person" ≠ "" by decide) sampleModel_apart
    hstorable sampleGraph_reachable hready rfl hnone hnames (by decide)
      (by decide) (fun order hgiven e he => ?_) (fun k hk => ?_) hdone
  · obtain rfl : [(.text "name", .descending)] = order :=
      Except.ok.inj (horder.symm.trans hgiven)
    obtain rfl := List.mem_singleton.mp he
    exact ⟨rfl, .inr ⟨_, List.mem_cons_of_mem _ List.mem_cons_self, rfl⟩⟩
  · have hpersons : found sampleModel .null sampleGraph = [0, 1] := by
      decide +kernel
    replace hk : k ∈ found sampleModel .null sampleGraph := hk
    rw [hpersons] at hk
    simp only [List.mem_cons, List.not_mem_nil, or_false] at hk
    refine ⟨?_, fun hid => absurd hid (by decide)⟩
    rcases hk with rfl | rfl
    · exact Element.isPlain_of_texts ["age", "full_name"] rfl
        (by decide) (by decide)
    · exact Element.isPlain_of_texts ["full_name"] rfl (by decide) (by decide)

end Act

end GraphMapper

/-
Reads agree with each other.

All reads of a connector come down to one thing: the rows that a query without
bounds gives on the graph, and the records that are made of these, one of each
(`Act.Lists`). A page is a slice of the rows, so its records are that slice of
the records. A count counts the rows, for there is one for each selected
element. The first record is the slice of length one. A search by id is a query
for one id, which selects one element or none; whether it selects one is what a
check for presence tells.

# One list for all reads

What is defined by a traversal each time is compared by one thing that all of
them share. So `Act.Lists` is a statement about the graph and not about a
connector, and it is by the operations that they are shown to give what it
says. That the filter is accepted is part of it.

Main statement: `reads_agree`.

Chain: `Query.Paging` for the traversals, `Connector.Records` for what records
are made of; `Connector.Arranged`, `Connector.Updating` and
`Connector.Destroying` go on.
-/
import GraphMapper.Proofs.Connector.Records
import GraphMapper.Proofs.Connector.Resaving
import GraphMapper.Proofs.Model.Definition
import GraphMapper.Proofs.Query.Paging

namespace GraphMapper

namespace Act

open GraphMapper.Filter

variable {name : String} {m : Model} {g : Graph} {es es' : Entries}
  {records : List Value} {skip limit : Nat} {id : Value} {c : Connector}

-- ==================================================================== lists

/-- The records that a query gives on a graph. -/
def Lists (m : Model) (g : Graph) (es : Entries) (records : List Value) :
    Prop :=
  ∃ steps, ∃ rows : List Entries, ∃ fields,
    Build.traversalFrom [] (Query.filtered m es) = .ok steps ∧
    g.evaluate steps = (.ok (rows.map .row), g) ∧
    Projection.fields es = .ok fields ∧
    rows.mapM (fun row => Result.ofRow m.isEdge row >>= toRecord m fields)
      = .ok records

/-- What is read for a mapping of entries, which may be empty. -/
private theorem reads_stated (es : Entries) :
    (if (Value.map es).isGiven then Value.map es
      else .map [(.text "where", .map [])]) = .map (Query.stated es) := by
  cases es with
  | nil => rfl
  | cons e es => rfl

/-- What a read of all records gives is what its query does. -/
private theorem lists_of_all (hname : name ≠ "") (hc : Facing name m g c)
    {v : Value} (h : (all (some name) (.map es) .null c).1 = .ok v) :
    ∃ records, v = .list records ∧ Lists m g (Query.stated es) records := by
  have hquery : ∀ steps,
      Build.traversalFrom [] (Query.query m (.map (Query.stated es)))
        = .ok steps →
        Graph.readsOnly steps = true ∧ ∀ items,
        g.evaluate steps = (.ok items, g) →
          ∃ rows : List Entries, items = rows.map .row := by
    intro steps hsteps
    rw [Query.query_given (Query.stated_ne_nil es)] at hsteps
    exact ⟨Query.readsOnly_filtered hsteps, fun items =>
      Graph.evaluate_filtered hsteps⟩
  obtain ⟨steps, rows, fields, records, hsteps, hgo, hfields, hrecords, rfl⟩ :=
    (ensures_all hname (reads_stated es) hquery c hc).2 v h
  rw [Query.query_given (Query.stated_ne_nil es)] at hsteps
  exact ⟨records, rfl, steps, rows, fields, hsteps, hgo, hfields, hrecords⟩

theorem Lists.does_all (h : Lists m g (Query.stated es) records)
    (hname : name ≠ "") :
    Does name m g (all (some name) (.map es) .null) (.list records) g := by
  obtain ⟨steps, rows, fields, hsteps, hgo, hfields, hrecords⟩ := h
  rw [← Query.query_given (Query.stated_ne_nil es)] at hsteps
  exact does_rows hname (reads_stated es) hfields hsteps hgo hrecords

/-- A read of all records succeeds just when its query gives some on the
graph. -/
theorem isOk_all_iff (hname : name ≠ "") (hc : Ready name m g c) :
    (all (some name) (.map es) .null c).1.isOk = true
      ↔ ∃ records, Lists m g (Query.stated es) records := by
  constructor
  · intro hok
    obtain ⟨v, hv⟩ := exists_of_isOk hok
    obtain ⟨records, -, hlists⟩ := lists_of_all hname hc.toFacing hv
    exact ⟨records, hlists⟩
  · rintro ⟨records, hlists⟩
    obtain ⟨c', hgo, -⟩ := hlists.does_all hname c hc
    rw [hgo]
    rfl

/-- A mapping is read for every row, so no record is nothing. -/
theorem yields_record (m : Model) (fields : Option (List Value))
    (row : Entries) :
    Yields (Result.ofRow m.isEdge row >>= toRecord m fields) fun r => ∃ own,
      r = .map own := by
  have hmap : Yields (Result.ofRow m.isEdge row) fun item => ∃ own,
      item = .map own := by
    unfold Result.ofRow Result.record
    simp only [Result.normalize]
    split
    · exact yields_bind fun own => yields_pure ⟨own, rfl⟩
    · exact yields_pure ⟨_, rfl⟩
  refine hmap.bind fun item hitem => ?_
  obtain ⟨own, rfl⟩ := hitem
  unfold toRecord
  refine yields_bind fun stored => ?_
  cases fields with
  | none => exact yields_pure ⟨_, rfl⟩
  | some names => exact yields_pure ⟨_, rfl⟩

private theorem Lists.isMap (h : Lists m g es records) :
    ∀ r ∈ records, ∃ own, r = .map own := by
  obtain ⟨steps, rows, fields, -, -, -, hrecords⟩ := h
  intro r hr
  obtain ⟨row, -, hrow⟩ := yields_mapM _ _ records hrecords r hr
  exact yields_record m fields row r hrow

-- =================================================================== slices

/-- With bounds there is a slice of the records. -/
theorem Lists.slice (h : Lists m g es records)
    (hs : Query.Slices m es es' skip limit) :
    Lists m g es' ((records.drop skip).take limit) := by
  obtain ⟨steps, rows, fields, hsteps, hgo, hfields, hrecords⟩ := h
  refine ⟨steps ++ Query.slicing skip limit, (rows.drop skip).take limit,
    fields, ?_, ?_, ?_, ?_⟩
  · rw [Query.traversalFrom_slice hs, hsteps]
    rfl
  · rw [Graph.evaluate_slice, hgo, List.map_take, List.map_drop]
    rfl
  · unfold Projection.fields at hfields ⊢
    rw [hs.fields]
    exact hfields
  · exact mapM_of_forall₂
      (List.forall₂_take _ (List.forall₂_drop _ (forall₂_of_mapM hrecords)))

private theorem Lists.does_slice (h : Lists m g es records) (hname : name ≠ "")
    (hs : Query.Slices m es es' skip limit) :
    Does name m g (all (some name) (.map es') .null)
      (.list ((records.drop skip).take limit)) g := by
  have hlists := h.slice hs
  rw [← hs.stated] at hlists
  exact hlists.does_all hname

/-- The first record is a slice, too. -/
private theorem slices_onlyFirst (m : Model) (es : Entries) :
    Query.Slices m (Query.stated (Query.unbounded es))
      (onlyFirst.foldl (fun acc e => Entries.insert e.1 e.2 acc) es) 0 1 := by
  refine Query.slices_unbounded (Query.field_insert_self _ _) ?_
    fun key hskip hlimit => ?_
  · exact (Query.field_insert_of_ne (by decide) _).trans
      (Query.field_insert_self _ _)
  · exact (Query.field_insert_of_ne hskip _).trans
      (Query.field_insert_of_ne hlimit _)

/-- A traversal that counts gives its number. -/
private theorem does_number (hname : name ≠ "")
    (operation : Model → Build Unit) {steps : List Step} {n : Nat}
    (hsteps : Build.traversalFrom [] (operation m) = .ok steps)
    (hgo : g.evaluate steps = (.ok [.number n], g)) :
    Does name m g (do
      let steps ← build (some name) (pure []) operation
      check (countOf (← execute (some name) steps .standard .next)))
          (n : Int) g :=
  (does_build hsteps).bind
    ((does_execute hname rfl hgo rfl rfl).bind (does_check (countOf_int n)))

/-- A count counts what its filter selects. -/
theorem does_count_selected (hname : name ≠ "") {filter : Value}
    {selected : List Step} {n : Nat}
    (hselect : Filter.select m filter = .ok selected)
    (hgo : g.evaluate (selected ++ [.call .count []]) = (.ok [.number n], g)) :
    Does name m g (count (some name) filter) (n : Int) g := by
  have hsteps : Build.traversalFrom [] (Query.count m filter)
      = .ok (selected ++ [.call .count []]) := by
    rw [Query.traversalFrom_count, hselect]
    rfl
  exact (does_number hname (Query.count · filter) hsteps hgo).observed _ _

/-- A count of what the query selects is the number of records. -/
private theorem Lists.does_count (h : Lists m g es records) (hname : name ≠ "")
    (hskip : Entries.field "skip" es = .null)
    (hlimit : Entries.field "limit" es = .null) {filter : Value}
    (hfilter : Filter.select m filter
      = Filter.select m (Entries.field "where" es)) :
    Does name m g (count (some name) filter) (records.length : Int) g := by
  obtain ⟨steps, rows, fields, hsteps, hgo, -, hrecords⟩ := h
  obtain ⟨-, selected, -, hselect, -⟩ :=
    Query.unbounded_eq_ok hskip hlimit hsteps
  have hlength : records.length = (rows.map Item.row).length := by
    rw [List.length_map, (forall₂_of_mapM hrecords).length_eq]
  have hnumber := Graph.evaluate_count_filtered hskip hlimit hsteps hselect hgo
  rw [hlength]
  exact does_count_selected hname (hfilter.trans hselect) hnumber

/-- Slices of one size that begin where the one before has ended are what they
are cut from. -/
private theorem flatten_slices {α : Type} (xs : List α) (size number : Nat) :
    ((List.range number).map fun i => (xs.drop (size * i)).take size).flatten
      = xs.take (size * number) := by
  induction number with
  | zero => rfl
  | succ number ih =>
      rw [List.range_succ, List.map_append, List.flatten_append, ih,
        Nat.mul_succ, List.take_add]
      simp

-- ===================================================================== by id

/-- Of the scalars only the empty text is refused for an id. -/
theorem requireId_scalar (hid : id.isScalar = true) (hempty : id ≠ .text "") :
    requireId id = .ok () := by
  have hnull : id.equal .null = false := by
    cases id with
    | symbol s => cases s <;> rfl
    | float x =>
        show Value.equalAtoms (.float x) .null = false
        cases hx : x.position? <;> simp [Value.equalAtoms, Value.position?, hx]
    | _ => first | rfl | cases hid
  have htext : id.equal (.text "") = false := by
    rw [Bool.eq_false_iff, ne_eq, Value.equal_iff_face rfl]
    intro hface
    cases id with
    | text s =>
        exact hempty
          (congrArg Value.text (Face.text.inj (Option.some.inj hface)))
    | symbol s =>
        cases s with
        | fieldType t =>
            cases t <;> simp [Value.face?, FieldType.word] at hface
        | _ => cases hid
    | float x => cases hx : x.position? <;> simp [Value.face?, hx] at hface
    | _ => simp [Value.face?] at hface
  unfold requireId
  rw [hnull, htext]
  rfl

/-- The filter of a search by id without its bounds. -/
def whereId (m : Model) (id : Value) : Entries :=
  [(.text "where", Query.byId m id)]

private theorem slices_searchFor (m : Model) (id : Value) :
    Query.Slices m (whereId m id) (searchFor m id) 0 1 :=
      ⟨rfl, rfl, rfl, rfl, rfl, rfl, rfl⟩

section

variable (hkey : m.idField.isKey = true)
  (hself : m.idField.sameKey m.idField = true) (hid : id.isScalar = true)

include hkey hself hid

/-- A query by id gives one row if there is an element with that id, and none
otherwise. -/
private theorem length_whereId {steps : List Step} {items : List Item}
    (hsteps : Build.traversalFrom [] (Query.filtered m (whereId m id))
      = .ok steps)
    (hgo : g.evaluate steps = (.ok items, g)) : items.length
        = (target m id g).toList.length := by
  have hcount := Graph.evaluate_count_filtered rfl rfl hsteps
    (select_sought hkey hself hid) hgo
  have hcounted := (evaluate_count_byId hid).symm.trans hcount
  have hitems := Except.ok.inj (Prod.mk.inj hcounted).1
  exact (Item.number.inj (List.cons.inj hitems).1).symm

private theorem Lists.length_byId (h : Lists m g (whereId m id) records) :
    records.length = (target m id g).toList.length := by
  obtain ⟨steps, rows, fields, hsteps, hgo, -, hrecords⟩ := h
  rw [← length_whereId hkey hself hid hsteps hgo, List.length_map,
    (forall₂_of_mapM hrecords).length_eq]

/-- A search by id has bounds, but cuts nothing off. -/
private theorem Lists.whole_byId (h : Lists m g (searchFor m id) records) :
    Lists m g (whereId m id) records := by
  obtain ⟨built, rows, fields, hbuilt, hgo, hfields, hrecords⟩ := h
  rw [Query.traversalFrom_slice (slices_searchFor m id)] at hbuilt
  cases hsteps : Build.traversalFrom [] (Query.filtered m (whereId m id)) with
  | error e =>
      rw [hsteps] at hbuilt
      cases hbuilt
  | ok steps =>
      rw [hsteps] at hbuilt
      obtain rfl : steps ++ Query.slicing 0 1 = built := Except.ok.inj hbuilt
      rw [Graph.evaluate_slice] at hgo
      obtain ⟨hitems, hsame⟩ := Prod.mk.inj hgo
      rcases hwhole : g.evaluate steps with ⟨e | items, g'⟩
      · rw [hwhole] at hitems
        cases hitems
      · rw [hwhole] at hitems hsame
        obtain rfl : g' = g := hsame
        have hlength : items.length ≤ 1 := by
          rw [length_whereId hkey hself hid hsteps hwhole]
          cases target m id g' <;> simp
        have hall : items = rows.map .row := by
          rw [← Except.ok.inj hitems]
          exact (List.take_of_length_le hlength).symm
        exact ⟨steps, rows, fields, hsteps, hall ▸ hwhole, hfields, hrecords⟩

/-- So it finds something just when there is an element with that id. -/
private theorem Lists.firstOf_byId (h : Lists m g (searchFor m id) records) :
    firstOf (.list records) ≠ .null ↔ (target m id g).isSome = true := by
  have hlength := (h.whole_byId hkey hself hid).length_byId hkey hself hid
  cases records with
  | nil =>
      cases htarget : target m id g with
      | none => simp [firstOf]
      | some k =>
          rw [htarget] at hlength
          cases hlength
  | cons r records =>
      obtain ⟨own, rfl⟩ := h.isMap r List.mem_cons_self
      cases htarget : target m id g with
      | none =>
          rw [htarget] at hlength
          cases hlength
      | some k => simp [firstOf]

private theorem does_presence (hname : name ≠ "") :
    Does name m g (presence (some name) id)
      (.bool (target m id g).isSome) g := by
  have hsteps : Build.traversalFrom [] (Query.presence m id) = .ok
      [Filter.source m [id], labelled m.label, .call .limit [.int 1],
        .call .count []] := by
    rw [Query.traversalFrom_presence, select_sought hkey hself hid]
    rfl
  have hanswer :
      Value.bool (decide (0 < ((target m id g).toList.length : Int)))
        = .bool (target m id g).isSome := by
    cases target m id g <;> rfl
  refine Does.observed ?_ _ _
  refine (does_build hsteps).bind ?_
  refine (does_execute hname rfl (evaluate_presence_byId hid) rfl rfl).bind ?_
  refine (does_check (countOf_int _)).bind ?_
  rw [hanswer]
  exact does_pure _

private theorem does_count_byId (hname : name ≠ "") :
    Does name m g (count (some name) (Query.byId m id))
      (if (target m id g).isSome then 1 else 0) g := by
  have hanswer : (if (target m id g).isSome then 1 else 0 : Int)
      = ((target m id g).toList.length : Int) := by
    cases target m id g <;> rfl
  rw [hanswer]
  exact does_count_selected hname (select_sought hkey hself hid)
    (evaluate_count_byId hid)

end

/-- A search by id is a query for the id, and gives its first record. -/
private theorem findById_eq (hmodel : c.registry.get (some name) = .ok m)
    (hid : requireId id = .ok ()) :
    (findById (some name) id .null c).1
      = (all (some name) (.map (searchFor m id)) .null c).1.map firstOf := by
  have hask : ask (fun c => c.registry.get (some name)) c = (.ok m, c) := by
    rw [ask, hmodel]
  have hcheck : check (requireId id) c = (.ok (), c) := by rw [check, hid]
  unfold findById
  rw [bind_apply_ok hask, bind_apply_ok hcheck]
  show ((all (some name) (.map (searchFor m id)) .null >>= fun v =>
    pure (firstOf v)) c).1 = _
  rw [bind_apply]
  rcases all (some name) (.map (searchFor m id)) .null c with
    ⟨e | v, c'⟩ <;> rfl

/-- Entries are put into a filter as into the mapping that it is read as. -/
private theorem withEntries_eq {filter : Value}
    (h : withEntries filter [] = .ok (.map es)) (more : List (Value × Value)) :
    withEntries filter more
      = .ok (.map (more.foldl
        (fun acc e => Entries.insert e.1 e.2 acc) es)) := by
  unfold withEntries at h ⊢
  cases filter with
  | map own =>
      obtain rfl : own = es := Value.map.inj (Except.ok.inj h)
      rfl
  | _ =>
      simp only at h ⊢
      split at h
      · cases h
      · next hgiven =>
        obtain rfl : [] = es := Value.map.inj (Except.ok.inj h)
        rw [if_neg hgiven]
        rfl

-- ==================================================================== main

/-- What the reads of a filter come to if `records` are all that it lets
through: every slice of them, pages of any size that together are the records,
their number, and the first of them. -/
structure Agree (name : String) (m : Model) (g : Graph) (es : Entries)
    (records : List Value) :
    Prop where
  slice : ∀ skip limit,
    Does name m g (all (some name) (.map (Query.bounded skip limit es)) .null)
      (.list ((records.drop skip).take limit)) g
  pages : ∀ size number, ∃ pages : List (List Value),
    Does name m g ((List.range number).mapM fun i =>
      all (some name) (.map (Query.bounded (size * i) size es)) .null)
        (pages.map .list) g ∧
    pages.flatten = records.take (size * number) ∧
    (0 < size → records.length ≤ number → pages.flatten = records)
  counted : Does name m g (count (some name) (Entries.field "where" es))
    (records.length : Int) g
  first : ∀ filter, withEntries filter [] = .ok (.map es) →
    Does name m g (findOne (some name) filter) (records.head?.getD .null) g

theorem Lists.agree (h : Lists m g (Query.stated (Query.unbounded es)) records)
    (hname : name ≠ "") :
    Agree name m g es records := by
  have hslice : ∀ skip limit,
      Does name m g
        (all (some name) (.map (Query.bounded skip limit es)) .null)
        (.list ((records.drop skip).take limit)) g := fun skip limit =>
    h.does_slice hname (Query.slices_bounded m es skip limit)
  refine ⟨hslice, fun size number => ?_, ?_, fun filter hfilter => ?_⟩
  · refine ⟨(List.range number).map fun i =>
      (records.drop (size * i)).take size, ?_,
        flatten_slices records size number, fun hsize hlength => ?_⟩
    · rw [List.map_map]
      exact does_mapM (fun i => hslice (size * i) size) (List.range number)
    · rw [flatten_slices]
      exact List.take_of_length_le
        (hlength.trans (Nat.le_mul_of_pos_left number hsize))
  · have hs := Query.slices_bounded m es 0 0
    refine h.does_count hname hs.noSkip hs.noLimit ?_
    rw [Query.select_stated, Query.field_unbounded (by decide) (by decide)]
  · refine (does_check (withEntries_eq hfilter onlyFirst)).bind ?_
    refine (h.does_slice hname (slices_onlyFirst m es)).bind ?_
    rw [List.drop_zero]
    cases records with
    | nil => exact does_pure _
    | cons r records => exact does_pure _

/-- Reads agree with each other.

If a filter without bounds is accepted, it gives a list of records, and with
bounds the slice of these that they say; pages of one size are together what is
read without them, as soon as there are enough of them; a count of what the
filter selects is the length of the list, and the search for one record finds
the first of the list, or nothing if it is empty. For every scalar but the
empty text, there is a record of that id just when a search by the id finds
something, and just when one element is counted for it, and otherwise none is;
the search succeeds just when the query for the id does. The model may be any
that a definition gives, and the graph any at all. -/
theorem reads_agree (hname : name ≠ "") (hm : m.IsProper)
    (hc : Ready name m g c) :
    (∀ es v, (all (some name) (.map (Query.unbounded es)) .null c).1 = .ok v →
      ∃ records, v = .list records ∧ Agree name m g es records) ∧
    ∀ id : Value, id.isScalar = true → id ≠ .text "" → ∃ found : Bool,
      Does name m g (presence (some name) id) (.bool found) g ∧
      Does name m g (count (some name) (Query.byId m id))
        (if found then 1 else 0) g ∧
      (∀ r, (findById (some name) id .null c).1 = .ok r →
        (r ≠ .null ↔ found = true)) ∧
      (findById (some name) id .null c).1.isOk
        = (all (some name) (.map (whereId m id)) .null c).1.isOk := by
  -- the slices and pages come from one list; the reads by id all ask for the
  -- same target
  refine ⟨fun es v hv => ?_, fun id hid hempty => ?_⟩
  · obtain ⟨records, rfl, hlists⟩ := lists_of_all hname hc.toFacing hv
    exact ⟨records, rfl, hlists.agree hname⟩
  · have hkey := hm.key
    have hself : m.idField.sameKey m.idField = true :=
      Value.sameKey_self hm.idField hkey
    have hfind := findById_eq hc.model (requireId_scalar hid hempty)
    refine ⟨(target m id g).isSome, does_presence hkey hself hid hname,
      does_count_byId hkey hself hid hname, fun r hr => ?_, ?_⟩
    · rw [hfind] at hr
      cases hsearch : (all (some name) (.map (searchFor m id)) .null c).1 with
      | error e =>
          rw [hsearch] at hr
          cases hr
      | ok v =>
          rw [hsearch] at hr
          obtain rfl : firstOf v = r := Except.ok.inj hr
          obtain ⟨records, rfl, hlists⟩ :=
            lists_of_all hname hc.toFacing hsearch
          exact Lists.firstOf_byId hkey hself hid hlists
    · rw [hfind, isOk_map, Bool.eq_iff_iff, isOk_all_iff hname hc,
        isOk_all_iff hname hc]
      constructor
      · rintro ⟨records, hlists⟩
        exact ⟨records, Lists.whole_byId hkey hself hid hlists⟩
      · rintro ⟨records, hlists⟩
        have hwhole : Lists m g (whereId m id) records := hlists
        exact ⟨_, hwhole.slice (slices_searchFor m id)⟩

/-- Two persons by their names, the second one as a page, and one of them by
id. -/
theorem reads_agree_sample : ∃ records,
    (all (some "Person") (.map [(.text "order", .text "name DESC")]) .null
      sampleConnector).1
      = .ok (.list records) ∧ records.length = 2 ∧
    (all (some "Person")
        (.map [(.text "order", .text "name DESC"), (.text "skip", .int 1),
          (.text "limit", .int 5)]) .null sampleConnector).1
            = .ok (.list (records.drop 1)) ∧
    (presence (some "Person") (.text "p1") sampleConnector).1
        = .ok (.bool true) := by
  have hproper : sampleModel.IsProper := by
    refine ⟨rfl, rfl, fun f hf => ?_⟩
    simp only [sampleModel, List.mem_cons, List.not_mem_nil, or_false] at hf
    rcases hf with rfl | rfl <;> exact ⟨rfl, rfl, rfl⟩
  have hready : Ready "Person" sampleModel sampleGraph sampleConnector :=
    ⟨⟨rfl, rfl, rfl⟩, rfl⟩
  have hdone :
      (all (some "Person") (.map [(.text "order", .text "name DESC")]) .null
        sampleConnector).1.isOk = true := by decide +kernel
  have htwo : (count (some "Person") .null sampleConnector).1.toOption
      = some 2 := by decide +kernel
  have hone : (count (some "Person") (Query.byId sampleModel (.text "p1"))
      sampleConnector).1.toOption = some 1 := by decide +kernel
  obtain ⟨hreads, hsearches⟩ :=
    reads_agree (show "Person" ≠ "" by decide) hproper hready
  obtain ⟨v, hv⟩ := exists_of_isOk hdone
  obtain ⟨records, rfl, hagree⟩ :=
    hreads [(.text "order", .text "name DESC")] v hv
  obtain ⟨c₁, hcount, -⟩ := hagree.counted sampleConnector hready
  obtain ⟨c₂, hpage, -⟩ := hagree.slice 1 5 sampleConnector hready
  obtain ⟨found, hpresence, hbyId, -⟩ := hsearches (.text "p1") rfl (by simp)
  obtain ⟨c₃, hpresent, -⟩ := hpresence sampleConnector hready
  obtain ⟨c₄, hnumber, -⟩ := hbyId sampleConnector hready
  -- two records, since the count counts them
  have hlength : records.length = 2 := by
    have hsame : (records.length : Int) = 2 := by
      have hcounted := htwo
      rw [show count (some "Person") .null sampleConnector
          = _ from hcount] at hcounted
      exact Option.some.inj hcounted
    omega
  refine ⟨records, hv, hlength, ?_, ?_⟩
  · have hrest : (records.drop 1).take 5 = records.drop 1 := by
      rw [List.take_of_length_le]
      rw [List.length_drop]
      omega
    rw [← hrest]
    exact congrArg Prod.fst hpage
  · rw [hnumber] at hone
    cases found with
    | true => rw [hpresent]
    | false => exact absurd (Option.some.inj hone) (by decide)

end Act

end GraphMapper

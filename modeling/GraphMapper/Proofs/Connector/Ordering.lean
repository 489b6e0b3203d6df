/-
Records in the order that is asked for.

A read with an order gives the records of the same elements as without one,
each of them the same: only where they stand is another matter. Of two elements
the one comes first that the order puts ahead, by the first of its entries in
which they differ; and elements that differ in none of them stay in the order
in which they are read otherwise (`Sorting.Arranged`).

What is compared are the values that the elements have. Records show them
(`Record.lookup?_whole`), brought into normal form, unless something else is
shown in their place: a model without fields asks for all properties, and one
with the name of the primary key is then shown for the id, while the elements
are sorted by their ids all the same.

Main statement: `all_ordered`.

Chain: `Connector.Arranged` for reads in general, `Sorting.Lexicographic` for
the order.
-/
import GraphMapper.Proofs.Connector.Arranged

namespace GraphMapper.Act

open GraphMapper.Filter Query Record Result Sorting
open Entries (lookup?)

variable {name : String} {m : Model} {g : Graph} {c : Connector} {es : Entries}
  {order : List (Value × Sorting)} {records : List Value} {k : Handle}
  {w o : Value}

-- ==================================================================== queries

/-- A query for all fields and all records, in an order by fields of the
model. -/
structure Sorts (m : Model) (es : Entries)
    (order : List (Value × Sorting)) : Prop where
  fields : Entries.field "fields" es = .null
  skip : Entries.field "skip" es = .null
  limit : Entries.field "limit" es = .null
  ordering : Query.orderOf es = .ok order
  declared : ∀ e ∈ order, m.Declares e.1

theorem Sorts.projection (hs : Sorts m es order) :
    Projection.fields es = .ok none := by
  unfold Projection.fields
  rw [hs.fields]

/-- It is built if its filter is accepted. -/
theorem Sorts.readies (h : m.Apart) (hs : Sorts m es order)
    {selected : List Step}
    (hselect : Filter.select m (Entries.field "where" es) = .ok selected) :
    Readies m es ⟨m.fieldNames, order, none, none, selected⟩ (readKeys m) := by
  refine ⟨?_, storageKeys_fieldNames h, fun e he =>
    h.isOk_sortKey (hs.declared e he)⟩
  unfold plan
  rw [hs.projection, hs.ordering, hs.skip, hs.limit, hselect]
  rfl

/-- It gives the records of all that its filter finds. -/
theorem Sorts.lists_iff (h : m.Apart) (hs : Sorts m es order)
    (hw : (Entries.field "where" es).isProper = true)
    (htidy : ∀ k ∈ found m (Entries.field "where" es) g, g.Tidy k) :
    Lists m g es records
      ↔ (Filter.select m (Entries.field "where" es)).isOk = true ∧
      (∀ k ∈ found m (Entries.field "where" es) g,
        (g.rowOf (readKeys m) k).isOk = true) ∧ ∃ sorted,
        arrange (g.sortValue m) order (found m (Entries.field "where" es) g)
          = .ok sorted ∧ sorted.mapM (recordUnder m g (readKeys m) none)
            = .ok records := by
  have hreaches : ∀ e ∈ order, m.Reaches (readKeys m) e.1 := fun e he =>
    h.reaches (hs.declared e he) fun _ hf _ _ hkey => asks_readKeys hf hkey
  have hbuilt : ∀ selected,
      Filter.select m (Entries.field "where" es) = .ok selected →
      (Lists m g es records ↔ _) := fun selected hselect =>
    Act.lists_iff h.hasKeyColumns h.plainId.isKey hw (hs.readies h hselect)
      hs.projection htidy hreaches
  constructor
  · intro hlists
    obtain ⟨p, keys, hready⟩ := hlists.readies
    obtain ⟨-, -, -, -, -, -, -, hselect⟩ := plan_eq_ok hready.plan
    exact ⟨by rw [hselect]; rfl, (hbuilt _ hselect).mp hlists⟩
  · rintro ⟨hok, hrest⟩
    obtain ⟨selected, hselect⟩ := exists_of_isOk hok
    exact (hbuilt selected hselect).mpr hrest

/-- In whatever order things are gone through, all of them come out or not. -/
private theorem isOk_mapM_perm {α β : Type} (f : α → Checked β)
    {xs ys : List α} (h : xs.Perm ys) :
    (xs.mapM f).isOk = (ys.mapM f).isOk := by
  rw [isOk_mapM, isOk_mapM, Bool.eq_iff_iff, List.all_eq_true,
    List.all_eq_true]
  exact ⟨fun hall x hx => hall x (h.mem_iff.mpr hx), fun hall x hx =>
    hall x (h.mem_iff.mp hx)⟩

/-- Whether it gives anything is no matter of the order, if that puts
everything in its place. -/
private theorem Sorts.exists_lists_iff (h : m.Apart) (hs : Sorts m es order)
    (hw : (Entries.field "where" es).isProper = true)
    (htidy : ∀ k ∈ found m (Entries.field "where" es) g, g.Tidy k)
    {sorted : List Handle}
    (hsorted : arrange (g.sortValue m) order
      (found m (Entries.field "where" es) g) = .ok sorted) :
    (∃ records, Lists m g es records)
      ↔ (Filter.select m (Entries.field "where" es)).isOk = true ∧
      (∀ k ∈ found m (Entries.field "where" es) g,
        (g.rowOf (readKeys m) k).isOk = true) ∧
        ((found m (Entries.field "where" es) g).mapM
          (recordUnder m g (readKeys m) none)).isOk = true := by
  have hperm := arrange_perm _ _ _ _ hsorted
  constructor
  · rintro ⟨records, hlists⟩
    obtain ⟨hselect, hrows, sorted', hsorted', hrecords⟩ :=
      (hs.lists_iff h hw htidy).mp hlists
    obtain rfl : sorted = sorted' :=
      Except.ok.inj (hsorted.symm.trans hsorted')
    exact ⟨hselect, hrows, by rw [← isOk_mapM_perm _ hperm, hrecords]; rfl⟩
  · rintro ⟨hselect, hrows, hok⟩
    rw [← isOk_mapM_perm _ hperm] at hok
    obtain ⟨records, hrecords⟩ := exists_of_isOk hok
    exact ⟨records, (hs.lists_iff h hw htidy).mpr ⟨hselect, hrows, sorted,
      hsorted, hrecords⟩⟩

-- ==================================================================== records

/-- If records can be made of all elements, each of them has a mapping for its
record. -/
private theorem exists_records {ks : List Handle}
    (hrecords : ks.mapM (recordUnder m g (readKeys m) none) = .ok records) :
    ∃ record : Handle → Entries,
      ∀ k ∈ ks, recordUnder m g (readKeys m) none k
        = .ok (.map (record k)) := by
  have hmade : ∀ k, ∃ own : Entries,
      k ∈ ks → recordUnder m g (readKeys m) none k = .ok (.map own) := by
    intro k
    by_cases hk : k ∈ ks
    · have hok : (recordUnder m g (readKeys m) none k).isOk = true := by
        have hall := isOk_mapM (recordUnder m g (readKeys m) none) ks
        rw [hrecords] at hall
        exact List.all_eq_true.mp hall.symm k hk
      obtain ⟨r, hr⟩ := exists_of_isOk hok
      obtain ⟨row, -, hrow⟩ := bind_eq_ok hr
      obtain ⟨own, rfl⟩ := yields_record m none row r hrow
      exact ⟨own, fun _ => hr⟩
    · exact ⟨[], fun hin => absurd hin hk⟩
  choose record hrecord using hmade
  exact ⟨record, fun k hk => hrecord k hk⟩

/-- The record of an element shows what the element has. -/
private theorem lookup?_record (h : m.Apart)
    (hkind : m.isEdge = (g.element k).isEdge)
    (hplain : (g.element k).IsPlain) {field v : Value}
    (hdisplays : Displays m (g.element k) field)
    (hv : (g.element k).at? (m.conditionKey field) = some v) {own : Entries}
    (hrecord : recordUnder m g (readKeys m) none k = .ok (.map own)) :
    lookup? field own = some (normalize v) := by
  obtain ⟨refs, hrefs, hitems⟩ := items_of_record hkind hplain hrecord
  obtain ⟨item, hitem, hholds⟩ := hitems (readKeys m)
  rw [recordUnder_of_item h.toFaced hitem none] at hrecord
  rw [← Value.map.inj (Except.ok.inj hrecord)]
  exact lookup?_whole h hdisplays hrefs hholds hv

-- ======================================================================= main

/-- An order puts the records of a read in their places, by its first entry
first.

If an order over the primary key and declared fields is accepted, then what a
filter finds is read in that order just when it is read without one, and then
with the same records in other places. Of two elements the one is ahead that is
smaller, or greater where the entry asks for that, in the first entry in which
they differ; if there is none, the one that is ahead without the order. In each
field the values have to be in one order by comparison. Where properties are
plain, a record shows what its element is sorted by, if the storage key of the
field is none that rows have a use for; the id is shown if no property that is
read has the name of the primary key. -/
theorem all_ordered (hname : name ≠ "") (h : m.Apart) (hg : g.Reachable)
    (hc : Ready name m g c) (hw : w.isProper = true)
    (horder : Query.orderOf [(.text "order", o)] = .ok order)
    (hdeclared : ∀ e ∈ order, m.Declares e.1)
    (htidy : ∀ k ∈ found m w g, g.Tidy k)
    (hvalues : ∀ e ∈ order,
      Value.Ordered ((found m w g).map (g.sortValue m e.1))) :
    ∃ sorted, Arranged (g.sortValue m) order (found m w g) sorted ∧
      (all (some name) (.map [(.text "where", w), (.text "order", o)]) .null
        c).1.isOk
        = (all (some name) (.map [(.text "where", w)]) .null c).1.isOk ∧
      ((all (some name) (.map [(.text "where", w)]) .null c).1.isOk = true →
        ∃ record : Handle → Entries,
          (all (some name) (.map [(.text "where", w)]) .null c).1
              = .ok (.list ((found m w g).map fun k => .map (record k))) ∧
          (all (some name) (.map [(.text "where", w), (.text "order", o)])
              .null c).1 = .ok (.list (sorted.map fun k => .map (record k))) ∧
          ∀ k ∈ found m w g, (g.element k).IsPlain → ∀ e ∈ order,
            Displays m (g.element k) e.1 → ∀ v,
            (g.element k).at? (m.conditionKey e.1) = some v →
              lookup? e.1 (record k) = some (normalize v)) := by
  -- the plain request and the ordered one are read by the same relation, with
  -- no order and with this one
  have hplain : Sorts m (stated [(.text "where", w)]) [] :=
    ⟨rfl, rfl, rfl, rfl, fun _ he => (nomatch he)⟩
  have hordered :
      Sorts m (stated [(.text "where", w), (.text "order", o)]) order :=
    ⟨rfl, rfl, rfl, horder, hdeclared⟩
  obtain ⟨sorted, hsorted, harranged⟩ :=
    arrange_ordered (nodup_found hg.sound m w) hvalues
  refine ⟨sorted, harranged, ?_, fun hok => ?_⟩
  · rw [Bool.eq_iff_iff, isOk_all_iff hname hc, isOk_all_iff hname hc]
    exact (hordered.exists_lists_iff h hw htidy hsorted).trans
      (hplain.exists_lists_iff h hw htidy rfl).symm
  · obtain ⟨records, hlists⟩ := (isOk_all_iff hname hc).mp hok
    obtain ⟨hselect, hrows, ks, hks, hrecords⟩ :=
      (hplain.lists_iff h hw htidy).mp hlists
    obtain rfl : found m w g = ks := Except.ok.inj hks
    -- one reading of every found element serves both answers
    obtain ⟨record, hrecord⟩ := exists_records hrecords
    have hall := mapM_eq_ok hrecord
    obtain rfl := Except.ok.inj (hrecords.symm.trans hall)
    have hsome : sorted.mapM (recordUnder m g (readKeys m) none)
        = .ok (sorted.map fun k => .map (record k)) :=
      mapM_eq_ok fun k hk => hrecord k (harranged.perm.mem_iff.mp hk)
    have hlists' := (hordered.lists_iff h hw htidy).mpr ⟨hselect, hrows,
      sorted, hsorted, hsome⟩
    obtain ⟨c₁, hgo, -⟩ := hlists.does_all hname c hc
    obtain ⟨c₂, hgo', -⟩ := hlists'.does_all hname c hc
    refine ⟨record, congrArg Prod.fst hgo, congrArg Prod.fst hgo', ?_⟩
    intro k hk hplain e _ hdisplays v hv
    exact lookup?_record h (isEdge_found hg.sound hk) hplain hdisplays hv
      (hrecord k hk)

/-- Two persons, sorted by their names from the end of the alphabet, and then
by their ids. -/
theorem all_ordered_sample : ∃ ann bob : Entries,
    (all (some "Person") (.map [(.text "where", .null)]) .null
      sampleConnector).1
        = .ok (.list [.map ann, .map bob]) ∧
      (all (some "Person") (.map [(.text "where", .null),
          (.text "order", .list [.text "name DESC", .text "id"])]) .null
            sampleConnector).1
        = .ok (.list [.map bob, .map ann]) ∧
      lookup? (.text "name") bob = some (.text "Bob") := by
  have hready : Ready "Person" sampleModel sampleGraph sampleConnector :=
    ⟨⟨rfl, rfl, rfl⟩, rfl⟩
  have horder :
      Query.orderOf [(.text "order", .list [.text "name DESC", .text "id"])]
        = .ok [(.text "name", .descending), (.text "id", .ascending)] := by
    have hname : Order.parseEntry (.text "name DESC")
        = .ok (.text "name", .descending) :=
      Order.parseEntry_of_words (by decide +kernel)
        (by decide +kernel : Order.direction? "DESC" = _)
    have hid : Order.parseEntry (.text "id") = .ok (.text "id", .ascending) :=
      Order.parseEntry_of_word (by decide +kernel)
    show [Value.text "name DESC", .text "id"].mapM Order.parseEntry = _
    rw [List.mapM_cons, hname, List.mapM_cons, hid]
    rfl
  have hfound : found sampleModel .null sampleGraph = [0, 1] := by
    decide +kernel
  have hplain : ∀ k ∈ found sampleModel .null sampleGraph,
      (sampleGraph.element k).IsPlain := by
    intro k hk
    rw [hfound] at hk
    simp only [List.mem_cons, List.not_mem_nil, or_false] at hk
    rcases hk with rfl | rfl
    · exact Element.isPlain_of_texts ["age", "full_name"] rfl
        (by decide) (by decide)
    · exact Element.isPlain_of_texts ["full_name"] rfl (by decide) (by decide)
  have hdone : (all (some "Person") (.map [(.text "where", .null)]) .null
      sampleConnector).1.isOk = true := by decide +kernel
  have hdeclared :
      ∀ e ∈ [(Value.text "name", Sorting.descending),
        (.text "id", .ascending)], sampleModel.Declares e.1 := by
    intro e he
    simp only [List.mem_cons, List.not_mem_nil, or_false] at he
    rcases he with rfl | rfl
    · exact .inr ⟨_, List.mem_cons_of_mem _ List.mem_cons_self, rfl⟩
    · exact .inl rfl
  have hvalues :
      ∀ e ∈ [(Value.text "name", Sorting.descending),
        (.text "id", .ascending)],
        Value.Ordered ((found sampleModel .null sampleGraph).map
          (sampleGraph.sortValue sampleModel e.1)) := by
    intro e he
    rw [hfound]
    simp only [List.mem_cons, List.not_mem_nil, or_false] at he
    rcases he with rfl | rfl <;>
      exact ⟨by decide +kernel, by decide +kernel, by decide +kernel,
        by decide +kernel⟩
  have htidy :
      ∀ k ∈ found sampleModel .null sampleGraph, sampleGraph.Tidy k :=
    fun k hk =>
      ⟨(hplain k hk).mapping, fun p hp => (hplain k hk).noSymbol p hp _⟩
  obtain ⟨sorted, harranged, -, hrecords⟩ :=
    all_ordered (show "Person" ≠ "" by decide) sampleModel_apart
      sampleGraph_reachable hready (show Value.null.isProper = true from rfl)
      horder hdeclared htidy hvalues
  obtain ⟨record, hall, hsorted, hdisplayed⟩ := hrecords hdone
  rw [hfound] at harranged hall hdisplayed
  -- Bob before Ann, which leaves one arrangement of two elements
  have hfirst : Ahead sorted 1 0 :=
    (harranged.ahead 1 (by simp) 0 (by simp) (by decide)).mpr
      (.inl (.inl (by decide +kernel)))
  obtain rfl : [1, 0] = sorted :=
    hfirst.eq_of_length harranged.perm.length_eq.symm
  refine ⟨record 0, record 1, hall, hsorted,
    hdisplayed 1 (by simp) (hplain 1 (by rw [hfound]; simp))
      (.text "name", .descending) List.mem_cons_self
    (.inr ⟨_, List.mem_cons_of_mem _ List.mem_cons_self, rfl, by decide⟩)
      (.text "Bob") rfl⟩

end GraphMapper.Act

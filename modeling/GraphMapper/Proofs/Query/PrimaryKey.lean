/-
The primary key is the id of an element, in whatever is built.

A creation gives the id in one step (`GivesId`), a replacement and an update
leave the primary key of a record alone, tests and orders have the reserved key
for it, and an element that has been created with a primary key is found by it
(`evaluate_created`). All of this rests on storage keys that keep the name of
the primary key to it (`Model.KeepsId`): if the primary key has a column of its
own, a creation writes it as a property, and gives the element another id.

Main statement: `primary_key_is_id`.

Chain: `Query.Identity` for steps that write, `Filter.Keys` for steps that
test, `Query.Sorting` for orders, `Query.Creating` for the element itself.
-/
import GraphMapper.Proofs.Filter.Keys
import GraphMapper.Proofs.Query.Creating
import GraphMapper.Proofs.Query.Identity
import GraphMapper.Proofs.Query.Sorting

namespace GraphMapper

namespace Query

open Build Entries

variable {m : Model} {es : Entries} {x : Value} {start steps : List Step}

-- ====================================================== what has been created

theorem put_injective : Function.Injective Graph.put := by
  intro p q hput
  injection hput with _ hargs
  obtain ⟨hkey, hrest⟩ := List.cons.inj hargs
  exact Prod.ext hkey (List.cons.inj hrest).1

/-- A creation with a primary key gives the id that the record has for it, and
no other. -/
private theorem gives_id (h : m.KeepsId) (hes : IsMapping es)
    (hx : lookup? m.idField es = some x)
    (hsteps : traversalFrom [] (create m (.map es)) = .ok steps) :
    Graph.put (.idKey, x) ∈ steps ∧ ∀ y,
      Graph.put (.idKey, y) ∈ steps → y = x := by
  obtain ⟨hfails, hgives⟩ := create_with_id h hes hx []
  rw [hsteps] at hfails hgives
  cases hplain : traversalFrom []
      (create m (.map (those m.namesOther es))) with
  | error e => cases hfails e hplain
  | ok plain =>
      obtain ⟨before, after, -, hbuilt, hothers⟩ := hgives plain hplain
      rw [Except.ok.inj hbuilt, List.nil_append]
      refine ⟨List.mem_append_right _ List.mem_cons_self, fun y hy => ?_⟩
      rcases List.mem_append.mp hy with hy | hy
      · cases hothers _ (List.mem_append_left _ hy)
      · rcases List.mem_cons.mp hy with heq | hy
        · have hput : Graph.put (.idKey, y) = Graph.put (.idKey, x) := heq
          exact congrArg Prod.snd (put_injective hput)
        · cases hothers _ (List.mem_append_right _ hy)

/-- So the element that is written to gets that id. -/
private theorem id_foldl_write {ps : Entries} {e : Element}
    (hall : ∀ y, (.idKey, y) ∈ ps → y = x)
    (hsome : e.id = x ∨ (.idKey, x) ∈ ps) :
    (ps.foldl Element.write e).id = x := by
  induction ps generalizing e with
  | nil => exact hsome.resolve_right List.not_mem_nil
  | cons p ps ih =>
      refine ih (fun y hy => hall y (List.mem_cons_of_mem _ hy)) ?_
      by_cases hid : p.1 = .idKey
      · obtain ⟨key, value⟩ := p
        obtain rfl : key = .idKey := hid
        exact .inl (hall value List.mem_cons_self)
      · have hkept : (e.write p).id = e.id := by
          unfold Element.write
          split
          · next heq => exact absurd heq hid
          · rfl
        rcases hsome with hsome | hmem
        · exact .inl (hkept.trans hsome)
        · rcases List.mem_cons.mp hmem with rfl | hmem
          · exact absurd rfl hid
          · exact .inr hmem

/-- Its label and its kind are not written to. -/
private theorem label_foldl_write (ps : Entries) (e : Element) :
    (ps.foldl Element.write e).label = e.label ∧
      (ps.foldl Element.write e).isEdge = e.isEdge := by
  induction ps generalizing e with
  | nil => exact ⟨rfl, rfl⟩
  | cons p ps ih =>
      obtain ⟨hlabel, hkind⟩ := ih (e.write p)
      have hkept : (e.write p).label = e.label ∧
          (e.write p).isEdge = e.isEdge := by
        unfold Element.write
        split <;> exact ⟨rfl, rfl⟩
      exact ⟨hlabel.trans hkept.1, hkind.trans hkept.2⟩

/-- An element that has been written to, its id among the rest, is found by
that id. -/
private theorem evaluate_written {ps : Entries} {k : Handle} {g g' : Graph}
    (hk : Graph.Entered k g) (hlabel : (g.element k).label = m.label)
    (hkind : (g.element k).isEdge = m.isEdge)
    (hface : ∃ face, m.idField.face? = some face) (hscalar : x.isScalar = true)
    (hput : (.idKey, x) ∈ ps) (hall : ∀ y, (.idKey, y) ∈ ps → y = x)
    {items : List Item}
    (hgo : (Graph.run .plain (ps.map Graph.put) [.element k]).on g
      = (.ok items, g')) :
    items = [.element k] ∧ ∃ found, Filter.select m (byId m x) = .ok found ∧
      g'.evaluate found = (.ok [.element k], g') := by
  obtain ⟨t, ht⟩ := Value.token?_of_scalar hscalar
  -- the run answered, so every write was accepted
  have hwrites : ∀ p ∈ ps, Graph.canWrite p = true := by
    by_contra hno
    obtain ⟨p, hp⟩ := Classical.not_forall.mp hno
    obtain ⟨hmem, hno⟩ := Classical.not_imp.mp hp
    obtain ⟨e, g'', -, hrefused⟩ :=
      Graph.on_writes_refused (k := k) ⟨p, hmem, Bool.eq_false_iff.mpr hno⟩ g
    rw [hrefused] at hgo
    cases hgo
  have hself : ∀ p ∈ ps, p.1 = .idKey → p.2.sameKey p.2 = true := by
    rintro ⟨key, y⟩ hp rfl
    obtain rfl := hall y hp
    exact (Value.sameKey_iff_token ht).mpr ht
  rw [Graph.on_writes hwrites] at hgo
  obtain ⟨hitems, rfl⟩ := Prod.mk.inj hgo
  obtain ⟨hentered, helement⟩ := hk.writes hself
  obtain ⟨hlabel', hkind'⟩ := label_foldl_write ps (g.element k)
  have htarget : Filter.target m x (ps.foldl (fun g p => g.write k p) g)
      = some k := by
    refine (Filter.target_eq_some_iff hentered.sound hscalar).mpr ⟨?_, ?_, ?_⟩
    · have hentry := hentered.entry
      rw [helement, hkind', hkind] at hentry
      unfold Graph.indexOf at hentry
      unfold Filter.stored
      exact hentry
    · rw [helement, hlabel', hlabel]
      exact m.label_equal
    · rw [helement, id_foldl_write hall (.inr hput)]
      exact (Value.same_iff_token ht).mpr ht
  obtain ⟨face, hface⟩ := hface
  refine ⟨(Except.ok.inj hitems).symm, _, Filter.select_scalar hface hscalar,
    ?_⟩
  have hfound := Filter.on_sought (m := m) (g :=
    ps.foldl (fun g p => g.write k p) g) hscalar []
  rw [htarget] at hfound
  exact hfound

/-- What has been created with a primary key is found by it: the filter for the
primary key finds this element, and no other. An edge that has nowhere to start
at is not made. -/
theorem evaluate_created {g g' : Graph} (h : m.KeepsId) (hes : IsMapping es)
    (hx : lookup? m.idField es = some x) (hscalar : x.isScalar = true)
    (hs : Graph.Sound [] g)
    (hsteps : traversalFrom [] (create m (.map es)) = .ok steps)
    {items : List Item} (hgo : g.evaluate steps = (.ok items, g')) :
    (StartsNowhere m (.map es) g ∧ items = [] ∧ g' = g) ∨
      ∃ k found, items = [.element k] ∧
      Filter.select m (byId m x) = .ok found ∧
        g'.evaluate found = (.ok [.element k], g') := by
  obtain ⟨hput, hall⟩ := gives_id h hes hx hsteps
  have hputs : ∀ (y : Value) (ps : Entries),
      Graph.put (.idKey, y) ∈ ps.map Graph.put ↔ (.idKey, y) ∈ ps :=
    fun y ps => List.mem_map_of_injective put_injective
  -- a vertex is placed at once, an edge between the ends that were found
  obtain ⟨ps, ⟨hkind, rfl⟩ | ⟨origin, target, hkind, hrefs, rfl⟩⟩ :=
    create_eq_ok hsteps
  · have hmem : Graph.put (.idKey, x) ∈ ps.map Graph.put :=
      (List.mem_cons.mp hput).resolve_left fun heq => by cases heq
    have hnew : (g.addVertex m.label .null []).1.element g.size
        = ⟨g.freshId.2, m.label, [], none⟩ :=
      (Graph.element_add g.freshId.1 _ _).trans (if_pos rfl)
    have hfound :=
      evaluate_written (m := m) (Graph.placed_addVertex hs m.label).entered
        (congrArg Element.label hnew)
          ((congrArg Element.isEdge hnew).trans hkind.symm) h.faced hscalar
      ((hputs x ps).mp hmem)
        (fun y hy => hall y (List.mem_cons_of_mem _ ((hputs y ps).mpr hy))) hgo
    obtain ⟨hitems, found, hselect, hfinds⟩ := hfound
    exact .inr ⟨g.size, found, hitems, hselect, hfinds⟩
  · have hmem : Graph.put (.idKey, x) ∈ ps.map Graph.put := by
      refine (List.mem_append.mp hput).resolve_left fun hedge => ?_
      simp [edgeBetween, Graph.put, Filter.labelled] at hedge
    change (Graph.run .plain (edgeBetween m origin target ++ ps.map Graph.put)
      [.start]).on g = _ at hgo
    cases horigin : g.named origin with
    | none =>
        rw [Graph.on_edgeBetween_nowhere horigin,
          Graph.on_writes_nothing] at hgo
        obtain ⟨hitems, hgraph⟩ := Prod.mk.inj hgo
        exact .inl ⟨⟨hkind, origin, target, hrefs, horigin⟩,
          (Except.ok.inj hitems).symm, hgraph.symm⟩
    | some k =>
        rw [Graph.on_edgeBetween hs horigin] at hgo
        cases htarget : g.named target with
        | none =>
            rw [htarget] at hgo
            cases hgo
        | some t =>
            rw [htarget] at hgo
            obtain ⟨e, he, rfl⟩ := Graph.named_mem horigin
            have hnew := Graph.element_withEdge g m.label e.2 t g.size
            rw [if_pos rfl] at hnew
            have hfound := evaluate_written (m := m)
              (Graph.entered_withEdge hs m.label (hs.vertex e he) t)
              (congrArg Element.label hnew)
              ((congrArg Element.isEdge hnew).trans hkind.symm)
              h.faced hscalar ((hputs x ps).mp hmem)
              (fun y hy =>
                hall y (List.mem_append_right _ ((hputs y ps).mpr hy))) hgo
            obtain ⟨hitems, found, hselect, hfinds⟩ := hfound
            exact .inr ⟨g.size, found, hitems, hselect, hfinds⟩

-- ======================================================================= main

/-- The primary key of a record is the id of the element, and nothing else is.

A creation whose record has a primary key is the one without it and one step
more, which gives the element that id. A replacement and an update are built as
if the record had none, and write nothing under its name or the reserved key. A
selection looks up an id, or tests the keys of the fields that the filter
tests, and a query sorts by the keys of the fields in its order; the primary
key, and no other field, has the reserved key there. And what a creation has
made of a record whose primary key is a scalar is what the filter for that
primary key finds. All this is so behind any source. -/
theorem primary_key_is_id (h : m.KeepsId) (start : List Step) :
    (∀ es x, IsMapping es → lookup? m.idField es = some x →
      GivesId m x start
        (traversalFrom start (create m (.map (those m.namesOther es))))
        (traversalFrom start (create m (.map es)))) ∧
    (∀ id es, IsMapping es →
      replace m id (.map es) = replace m id (.map (those m.namesOther es)) ∧
      Adds (fun step => writesId m step = false) (replace m id (.map es))) ∧
    (∀ filter es, IsMapping es →
      update m filter (.map es)
        = update m filter (.map (those m.namesOther es)) ∧
      Adds (fun step => writesId m step = false) (update m filter (.map es))) ∧
    (∀ filter steps, traversalFrom start (select m filter) = .ok steps →
      ∃ selected, steps = start ++ selected ∧
        ((∃ id, Filter.soughtId? m.idField filter = .ok (some id) ∧
            selected = [Filter.source m [id], Filter.labelled m.label]) ∨
          Filter.testKeys selected
              = (Filter.tested filter).map m.conditionKey)) ∧
    (∀ filter es steps, filter.isGiven = true → filter.entries = .ok es →
      traversalFrom start (query m filter) = .ok steps →
      ∃ order selected keys skip limit, orderOf es = .ok order ∧
        traversalFrom start (select m (Entries.field "where" es))
          = .ok (start ++ selected) ∧
        steps = start ++ selected ++ .call .elementMap keys ::
          (sorting m order ++ cuts .skip skip ++ cuts .limit limit)) ∧
    (∀ name, name ≠ .idKey →
      (m.conditionKey name = .idKey ↔ m.namesId name = true)) ∧
    ∀ es x (g g' : Graph) steps items,
      IsMapping es → lookup? m.idField es = some x → x.isScalar = true →
      g.Reachable → traversalFrom [] (create m (.map es)) = .ok steps →
      g.evaluate steps = (.ok items, g') →
      (StartsNowhere m (.map es) g ∧ items = [] ∧ g' = g) ∨
        ∃ k found, items = [.element k] ∧
        Filter.select m (byId m x) = .ok found ∧
          g'.evaluate found = (.ok [.element k], g') := by
  have hselects : ∀ filter, traversalFrom start (select m filter)
      = (Filter.select m filter).map fun selected => start ++ selected := by
    intro filter
    have hbuilt := traversalFrom_select_bind (m := m) start filter
      fun _ => pure ()
    rw [bind_pure] at hbuilt
    rw [hbuilt]
    cases Filter.select m filter <;> rfl
  -- one part per operation that meets the key
  refine ⟨?creates, ?replaces, ?updates, ?tests, ?sorts, ?keys, ?found⟩
  case creates => exact fun es x hes hx => create_with_id h hes hx start
  case replaces =>
      exact fun id es _ =>
        ⟨replace_others h id es, adds_replace h id (.map es)⟩
  case updates => exact fun filter es hes =>
      ⟨update_others h hes filter, adds_update h hes filter⟩
  case tests =>
    intro filter steps hsteps
    rw [hselects] at hsteps
    cases hselect : Filter.select m filter with
    | error e =>
        rw [hselect] at hsteps
        cases hsteps
    | ok selected =>
        rw [hselect] at hsteps
        exact ⟨selected, (Except.ok.inj hsteps).symm,
          Filter.testKeys_select hselect⟩
  case sorts =>
    intro filter es steps hgiven hentries hsteps
    unfold query at hsteps
    rw [if_pos hgiven, hentries] at hsteps
    obtain ⟨order, selected, keys, skip, limit, horder, -, -,
        hselect, hbuilt⟩ :=
      filtered_eq_ok hsteps
    refine ⟨order, selected, keys, skip, limit, horder, ?_, hbuilt⟩
    rw [hselects, hselect]
    rfl
  case keys => exact fun name hname => Model.conditionKey_eq_idKey_iff h hname
  case found =>
    intro es x g g' steps items hes hx hscalar hg hsteps hgo
    exact evaluate_created h hes hx hscalar hg.sound hsteps hgo

private theorem keepsId_sampleModel : Filter.sampleModel.KeepsId := by
  refine ⟨⟨_, rfl⟩, by decide, fun f hf => ?_, fun hedge => (nomatch hedge)⟩
  rcases List.mem_cons.mp hf with rfl | hf
  · exact ⟨Value.noConfusion, Value.noConfusion⟩
  · rw [List.mem_singleton.mp hf]
    exact ⟨Value.noConfusion, Value.noConfusion⟩

/-- A person gets an id in one step and is found by it; a filter tests the id
and a property. -/
theorem primary_key_is_id_person :
    let named := Step.call .property [.text "full_name", .text "Cid"]
    let record :=
      Value.map [(.text "name", .text "Cid"), (.text "id", .text "p9")]
    let filter :=
      Value.map [(.text "or", .list [.map [(.text "id", .text "p1")],
        .map [(.text "name", .map [(.text "like", .text "C")])]])]
    GivesId Filter.sampleModel (.text "p9") []
      (.ok [.call .addVertex [.text "Person"], named])
        (traversalFrom [] (create Filter.sampleModel record)) ∧
    (∃ selected,
      traversalFrom [] (select Filter.sampleModel filter) = .ok selected ∧
      Filter.testKeys selected = [.idKey, .text "full_name"]) ∧
    ∃ g' found, Filter.sampleGraph.evaluate [.call .addVertex [.text "Person"],
        .call .property [.idKey, .text "p9"], named] = (.ok [.element 3], g') ∧
      Filter.select Filter.sampleModel (byId Filter.sampleModel (.text "p9"))
          = .ok found ∧
      g'.evaluate found = (.ok [.element 3], g') := by
  intro named record filter
  obtain ⟨hcreates, -, -, htests, -, -, hfound⟩ :=
    primary_key_is_id keepsId_sampleModel []
  have hrecord : IsMapping [(Value.text "name", Value.text "Cid"),
      (.text "id", .text "p9")] := by
    unfold IsMapping
    decide
  refine ⟨hcreates _ _ hrecord rfl, ?_, ?_⟩
  · obtain ⟨selected, rfl, ⟨id, hid, -⟩ | hkeys⟩ := htests filter _ rfl
    · cases hid
    · exact ⟨_, rfl, hkeys⟩
  · have hgo : ∃ g',
        Filter.sampleGraph.evaluate [.call .addVertex [.text "Person"],
          .call .property [.idKey, .text "p9"],
          named] = (.ok [.element 3], g') := ⟨_, rfl⟩
    obtain ⟨g', hgo⟩ := hgo
    obtain ⟨⟨hedge, -⟩, -, -⟩ | ⟨k, found, hitems, hselect, hfinds⟩ :=
      hfound _ _ _ g' _ _ hrecord rfl rfl Filter.sampleGraph_reachable rfl hgo
    · cases hedge
    · obtain rfl : 3 = k := by
        injection hitems with hitem
        exact Item.element.inj hitem
      exact ⟨g', found, hgo, hselect, hfinds⟩

-- A primary key with a column of its own is written as a property.
example : (traversalFrom [] (create { Filter.sampleModel with
      fields := [⟨.text "id", .string, .text "pk"⟩] }
        (.map [(.text "id", .text "p9")])))
    = .ok [.call .addVertex [.text "Person"],
        .call .property [.text "pk", .text "p9"]] := by
  rfl

end Query

end GraphMapper

/-
A record that is created is found.

A creation with a complete record always succeeds: the record is written to the
new vertex entry by entry, and what stands there afterwards is the id and the
stored form of every other value (`element_entered`). That holds whatever ids
there are in the graph, for if an id is taken, the new vertex takes it over. A
search by that id then shows the stored forms, which are in normal form, under
the names of their fields.

The two halves meet in the vertex that the creation leaves (`Stands`); if no id
was taken, nothing but this vertex has changed (`Graph.Gains`). One field may
show what the record does not have: if it is named `id`, and is not the primary
key, it reads the id of a vertex that has no property for it.

Main statement: `create_then_find`.

Chain: `Connector.Creation` for the vertex, `Connector.Resaving` for what is
read of it.
-/
import GraphMapper.Proofs.Connector.Creation
import GraphMapper.Proofs.Connector.Resaving

namespace GraphMapper

-- ================================================================= the vertex

namespace Record

variable {m : Model} {es data : Entries} {id : Value} {e : Element}
  {p : Value × Value}

/-- Entries for the primary key give the id, the others are put in. -/
private theorem foldl_write (hplain : ∀ p ∈ data, p.1.IsPlain) (e : Element) :
    (data.map (entered m)).foldl Element.write e =
      { e with
        id := (data.filter fun p => p.1.equal m.idField).foldl
          (fun _ p => p.2) e.id
        props := ((data.filter fun p => !p.1.equal m.idField).map
          (formed m)).foldl (fun acc p => Entries.insert p.1 p.2 acc)
            e.props } := by
  induction data generalizing e with
  | nil => rfl
  | cons p data ih =>
      rw [List.map_cons, List.foldl_cons, ih fun q hq =>
        hplain q (List.mem_cons_of_mem _ hq), List.filter_cons,
          List.filter_cons]
      unfold entered
      by_cases hid : p.1.equal m.idField = true
      · rw [if_pos hid, if_pos hid, if_neg (by simp [hid])]
        rfl
      · have hkey : (formed m p).1 ≠ .idKey :=
          (hplain p List.mem_cons_self).ne_idKey
        have hwrite : e.write (formed m p) = { e with
              props :=
                Entries.insert (formed m p).1 (formed m p).2 e.props } := by
          unfold Element.write
          split
          · next heq => exact absurd heq hkey
          · rfl
        rw [if_neg hid, if_neg hid, if_pos (by simp [hid]), hwrite]
        rfl

/-- Of the entries of a record, one gives the id. -/
private theorem foldl_id {ps : Entries} {start : Value}
    (hps : ∀ p ∈ ps, p.2 = id)
    (hsome : start = id ∨ ps ≠ []) : ps.foldl (fun _ p => p.2) start = id := by
  induction ps generalizing start with
  | nil => exact hsome.resolve_right fun hne => hne rfl
  | cons p ps ih =>
      exact ih (fun q hq => hps q (List.mem_cons_of_mem _ hq))
        (.inl (hps p List.mem_cons_self))

section

variable (h : m.Apart) (hs : m.Storable) (hes : Complete m es id)

include h hs hes

/-- What a complete record makes of an element without properties. -/
theorem element_entered (he : e.props = []) :
    ((inStorage m es).map (entered m)).foldl Element.write e
      = { e with id, props := properties m es } := by
  obtain ⟨face, hface⟩ := h.plainId.faced
  have hunmixed := h.unmixed hs
  have hdata := distinct_inStorage hunmixed hes.toDeclared.named
  have hgiven :=
    (lookup?_inStorage_id hunmixed hes.toDeclared.named).trans hes.given
  have hall : ∀ p ∈ (inStorage m es).filter fun p => p.1.equal m.idField,
      p.2 = id := by
    intro p hp
    obtain ⟨hp, hequal⟩ := List.mem_filter.mp hp
    have hfound :=
      hdata.lookup?_of_mem hp ((Value.equal_iff_face hface).mp hequal) hface
    exact Option.some.inj (hfound.symm.trans hgiven)
  have hsome : ((inStorage m es).filter fun p => p.1.equal m.idField)
      ≠ [] := by
    obtain ⟨p, hp, hp', -⟩ := (hdata.lookup?_eq_some_iff hface).mp hgiven
    exact List.ne_nil_of_mem
      (List.mem_filter.mpr ⟨hp, (Value.equal_iff_face hface).mpr hp'⟩)
  have hprops : (properties m es).foldl
      (fun acc p => Entries.insert p.1 p.2 acc) [] = properties m es :=
        (distinct_properties hunmixed hes.toDeclared.named).isMapping.ofList_eq
  have hplain : ∀ p ∈ inStorage m es, p.1.IsPlain := fun p hp =>
    plain_inStorage h hs hes.toDeclared hp
  rw [foldl_write hplain, foldl_id hall (.inr hsome), he]
  exact congrArg (fun props => { e with id, props }) hprops

/-- Whatever is written for an entry of a record can be written, if the id
can. -/
private theorem canWrite_entered (hid : id.isKey = true)
    (hp : p ∈ inStorage m es) : Graph.canWrite (entered m p) = true ∧
      ((entered m p).1 = .idKey → (entered m p).2 = id) := by
  obtain ⟨face, hface⟩ := h.plainId.faced
  have hunmixed := h.unmixed hs
  have hdata := distinct_inStorage hunmixed hes.toDeclared.named
  unfold entered
  by_cases hequal : p.1.equal m.idField = true
  · have hfound :=
      hdata.lookup?_of_mem hp ((Value.equal_iff_face hface).mp hequal) hface
    rw [lookup?_inStorage_id hunmixed hes.toDeclared.named,
      hes.given] at hfound
    rw [if_pos hequal, ← Option.some.inj hfound]
    exact ⟨hid, fun _ => rfl⟩
  · have hplain := plain_inStorage h hs hes.toDeclared hp
    rw [if_neg hequal]
    have hkey : (formed m p).1 ≠ .idKey := hplain.ne_idKey
    refine ⟨?_, fun hid => absurd hid hkey⟩
    rw [Graph.canWrite_property hkey]
    exact hplain.isKey

end

end Record

namespace Query

open Record

variable {m : Model} {g : Graph} {es : Entries} {id : Value}

/-- A creation with a complete record makes a vertex of the id and the stored
forms. -/
private theorem evaluate_create_complete (h : m.Apart) (hs : m.Storable)
    (hvertex : m.isEdge = false) (hg : Graph.Sound [] g)
    (hes : Complete m es id) (hid : id.isKey = true)
    (hself : id.sameKey id = true) :
    ∃ steps g', Build.traversalFrom [] (create m (.map es)) = .ok steps ∧
      g.evaluate steps = (.ok [.element g.size], g') ∧ Graph.Placed g.size g' ∧
      g'.element g.size = ⟨id, m.label, properties m es, none⟩ ∧
      (Index.Free g.vertices g.freshId.2 → Index.Free g.vertices id →
        Graph.Gains m.label none g g') := by
  -- the writes of the record, and the graph with the bare vertex they start
  -- from
  let ps := (inStorage m es).map (entered m)
  let g₁ := (g.addVertex m.label .null []).1
  -- only the key writes an id, and it writes the record's own
  have hwrites : ∀ p ∈ ps, Graph.canWrite p = true ∧
      (p.1 = .idKey → p.2 = id) := by
    intro p hp
    obtain ⟨q, hq, rfl⟩ := List.mem_map.mp hp
    exact canWrite_entered h hs hes hid hq
  have hkeys : ∀ p ∈ ps, p.1 = .idKey → p.2.sameKey p.2 = true := by
    intro p hp hkey
    rw [(hwrites p hp).2 hkey]
    exact hself
  have hnew : g₁.element g.size = ⟨g.freshId.2, m.label, [], none⟩ :=
    (Graph.element_add g.freshId.1 _ _).trans (if_pos rfl)
  have hsteps : Build.traversalFrom [] (create m (.map es))
      = .ok (.call .addVertex [m.label] :: ps.map Graph.put) := by
    have hall : (inStorage m es).filter (fun p => !p.1.isIn [])
        = inStorage m es :=
      List.filter_eq_self.mpr fun _ _ => rfl
    rw [create_eq h hs hvertex hes.toDeclared]
    unfold Build.traversalFrom
    rw [runFrom_write fun p hp _ =>
      becomes_entered (h.unmixed hs) hes.writable hp, hall]
    rfl
  obtain ⟨hplaced, helement⟩ :=
    (Graph.placed_addVertex hg m.label).writes hkeys
  refine ⟨_, ps.foldl (fun g' p => g'.write g.size p) g₁, hsteps, ?_,
    hplaced, ?_, ?_⟩
  · exact Graph.on_writes (fun p hp => (hwrites p hp).1) g₁
  · rw [helement, hnew]
    exact element_entered h hs hes rfl
  · intro hnext hfree
    refine (Graph.gains_addVertex hnext m.label).writes fun p hp hkey =>
      ⟨hkeys p hp hkey, ?_⟩
    rw [(hwrites p hp).2 hkey]
    exact hfree

end Query

namespace Act

open Record

variable {name : String} {m : Model} {g g' : Graph} {k : Handle}
  {record : Entries} {id : Value}

-- =============================================================== the creation

/-- A creation that makes a vertex gives back its id in normal form. -/
private theorem does_create (hname : name ≠ "") (hvertex : m.isEdge = false)
    {record : Value} {steps : List Step}
    (hsteps : Build.traversalFrom [] (Query.create m record) = .ok steps)
    (hgo : g.evaluate steps = (.ok [.element k], g'))
    (hends : (g'.element k).ends = none) :
    Does name m g (create (some name) record .null)
      (Result.normalize (g'.element k).id) g' := by
  have hraw : Server.complete g' .next [.element k]
      = .ok (.vertex (g'.element k).id (g'.element k).label) := by
    show g'.elementValue (g'.element k) = _
    unfold Graph.elementValue
    rw [hends]
  have hfinish : Options.standard.finish (some m) .next
      (.vertex (g'.element k).id (g'.element k).label)
        = .ok (Result.elementMap (Result.normalize (g'.element k).id)
          (g'.element k).label) := by
    unfold Options.finish
    rw [if_neg (by decide),
      if_pos (show Options.standard.parse = true from rfl)]
    show Result.present m.isEdge _ = _
    rw [hvertex]
    rfl
  have hmutate : Does name m g
      (mutate (some name) (Query.create · record) .standard .next)
        (Result.elementMap (Result.normalize (g'.element k).id)
          (g'.element k).label) g' := by
    rw [mutate_alone rfl]
    exact (does_build hsteps).bind (does_execute hname rfl hgo hraw hfinish)
  rw [create_eq_createdId]
  exact does_changing rfl hmutate rfl "create"

-- ==================================================================== main

/-- What is created is found by its id, in its stored form.

The record has names of declared fields for its keys and an id that is a
scalar, is not refused, and is no member of an enumeration, and each other
value of it can be stored. The graph can be any that there can be. Then the
creation gives back the id, and the search finds a mapping with the id under
the primary key, the stored form of what the record has for it under every
other field, and nothing else, but for one thing: a field that is named `id`,
and that the record has nothing for, is found to be the id. If neither the id
nor the one that is given out next was taken, the graph has one more vertex,
and is as it was otherwise. -/
theorem create_then_find (hname : name ≠ "") (hvertex : m.isEdge = false)
    (h : m.Apart) (hs : m.Storable) (hg : g.Reachable)
    (hrecord : Complete m record id) (hscalar : id.isScalar = true)
    (hsymbol : ∀ s, id ≠ .symbol s) (hrequired : requireId id = .ok ())
    {c : Connector} (hc : Ready name m g c) :
    ∃ c₁ g₁ c₂ found, create (some name) (.map record) .null c = (.ok id, c₁) ∧
      Ready name m g₁ c₁ ∧
      findById (some name) id .null c₁ = (.ok (.map found), c₂) ∧
      Ready name m g₁ c₂ ∧ Entries.Distinct found ∧
      Entries.lookup? m.idField found = some id ∧
      (∀ f ∈ m.others, Entries.lookup? f.name found
        = if f.name.face? = some (.text "id") ∧
          Entries.lookup? f.name record = none then some id
          else (Entries.lookup? f.name record).bind fun v =>
            (serialize (some f.type) v).toOption) ∧
      (∀ p ∈ found, p.1 = m.idField ∨ ∃ f ∈ m.fields, p.1 = f.name) ∧
      (Index.Free g.vertices g.freshId.2 → Index.Free g.vertices id →
        Graph.Gains m.label none g g₁) := by
  have hscalarId : id.isKey = true ∧ id.isProper = true ∧
      Result.normalize id = id := by
    cases id with
    | symbol s => exact absurd rfl (hsymbol s)
    | _ => first | exact ⟨rfl, rfl, rfl⟩ | cases hscalar
  obtain ⟨hkey, hproper, hnormal⟩ := hscalarId
  obtain ⟨steps, g₁, hsteps, hgo, hplaced, helement, hgains⟩ :=
    Query.evaluate_create_complete h hs hvertex hg.sound hrecord hkey
      (Value.sameKey_self hproper hkey)
  have hid : (g₁.element g.size).id = id := congrArg Element.id helement
  have hheld : Held m (g₁.element g.size).props :=
    Query.held_of_written h hs hvertex
      (.create hrecord.toDeclared hsteps hgo rfl)
  -- the written vertex stands as a stored one, which is all the search needs
  have hstands : Stands m g₁ g.size := by
    refine ⟨hplaced.sound, hplaced.entry, ?_, hid ▸ hscalar, hid ▸ hsymbol,
      hid ▸ hrequired, hheld⟩
    rw [show (g₁.element g.size).label
        = m.label from congrArg Element.label helement]
    exact m.label_equal
  have hcreate :=
    does_create hname hvertex hsteps hgo (congrArg Element.ends helement)
  have hfind := does_findById hname hvertex h hs.rowFree hstands
  rw [hid, hnormal] at hcreate
  rw [hid] at hfind
  obtain ⟨c₁, hrun, hc₁⟩ := hcreate c hc
  obtain ⟨c₂, hrun', hc₂⟩ := hfind c₁ hc₁
  refine ⟨c₁, g₁, c₂, _, hrun, hc₁, hrun', hc₂, distinct_read h _, ?_,
    fun f hf => ?_, fun _ hp => mem_read hp, hgains⟩
  · rw [lookup?_read_id h, hid, hnormal]
  · have hstored : Entries.lookup? f.key (g₁.element g.size).props
        = (Entries.lookup? f.name record).bind fun v =>
          (serialize (some f.type) v).toOption := by
      rw [show (g₁.element g.size).props
        = properties m record from congrArg Element.props helement,
        lookup?_properties (h.unmixed hs) hrecord.writable hf]
    -- a field named id without a value of its own is read from the element
    by_cases hmissing : f.name.face? = some (.text "id") ∧
      Entries.lookup? f.name record = none
    · rw [hmissing.2, Option.bind_none] at hstored
      rw [if_pos hmissing,
        lookup?_read_named h hs.rowFree hf hmissing.1 hstored, hid, hnormal]
    · rw [if_neg hmissing, lookup?_read h hs.rowFree hheld.readable hf,
        hheld.normalize, hstored]
      intro hidName
      obtain ⟨v, hv⟩ := Option.ne_none_iff_exists'.mp fun hnone =>
        hmissing ⟨hidName, hnone⟩
      obtain ⟨w, hw⟩ := hrecord.serializes f hf v hv
      rw [hstored, hv, Option.bind_some, hw]
      rfl

-- ================================================================ instances

private theorem complete_profileRecord :
    Complete profileModel profileRecord (.text "p1") := by
  refine ⟨declared_profileRecord, rfl, fun f hf v hv => ?_⟩
  rcases List.mem_cons.mp hf with rfl | hf
  · rw [← Option.some.inj (show some (Value.int 41) = some v from hv)]
    exact ⟨_, rfl⟩
  · obtain rfl := List.mem_singleton.mp hf
    rw [← Option.some.inj (show some (Value.map [(.text "a", .int 1)])
        = some v from hv)]
    exact ⟨_, rfl⟩

/-- A profile is found as its JSON text. -/
theorem create_then_find_profile : ∃ c₁ c₂ found,
    create (some "User") (.map profileRecord) .null profileConnector
      = (.ok (.text "p1"), c₁) ∧
      findById (some "User") (.text "p1") .null c₁ = (.ok (.map found), c₂) ∧
      Entries.lookup? (.text "age") found = some (.int 41) ∧
      Entries.lookup? (.text "profile") found
        = some (.text "\x7b\"a\": 1\x7d") ∧
      Graph.Gains (.text "User") none .empty c₁.server.graph := by
  obtain ⟨c₁, g₁, c₂, found, hcreate, hc₁, hfind, -, -, -, hfields,
      -, hgains⟩ :=
    create_then_find (c := profileConnector) (show "User" ≠ "" by decide) rfl
      profileModel_apart profileModel_saveable.storable .empty
        complete_profileRecord rfl
      (fun _ hs => (nomatch hs)) rfl ⟨⟨rfl, rfl, rfl⟩, rfl⟩
  have hnone : ∀ id, Index.Free Graph.empty.vertices id :=
    fun id e he => (nomatch he)
  refine ⟨c₁, c₂, found, hcreate, hfind, ?_, ?_, ?_⟩
  · exact hfields _ List.mem_cons_self
  · exact hfields _ (List.mem_cons_of_mem _ List.mem_cons_self)
  · rw [hc₁.graph]
    exact hgains (hnone _) (hnone _)

end Act

end GraphMapper

/-
Reading a vertex and saving what has been read, over and over.

Nothing comes back from the graph as it was before it was stored, so a vertex
that is found and saved has its stored forms stored again. That leaves strings,
numbers, truth values and dates. Objects and arrays are stored as JSON text and
read as that text, and each time that they are saved again they come to be the
JSON text of the text that they have been (`FieldType.again`). Nothing else
changes: neither the keys of the properties, nor the id, nor any other element
(`resaves_again`).

A field named `id` that is not the primary key is not among these, as it may
read the id of the element; nor are ids that are members of an enumeration,
since they are read as their names (`resaves_changes`).
-/
import GraphMapper.Proofs.Query.Saving
import Mathlib.Logic.Function.Iterate

namespace GraphMapper

namespace Act

open Record

variable {name : String} {m : Model} {g : Graph} {k : Handle}

/-- Finds a vertex by its id and saves what has been found, a number of
times. -/
def resaves (model : Option String) (id : Value) : Nat → Act Unit
  | 0 => pure ()
  | n + 1 => do
    let _ ← save model (← findById model id .null) .null
    resaves model id n

/-- The filter of a search by id. -/
def searchFor (m : Model) (id : Value) : Entries :=
  (.text "where", Query.byId m id) :: onlyFirst

/-- The traversal of a search by id. -/
def searchSteps (m : Model) (id : Value) : List Step :=
  [Filter.source m [id], Filter.labelled m.label]
    ++ .call .elementMap (Query.readKeys m)
      :: (Query.cuts .skip (some (.int 0))
        ++ Query.cuts .limit (some (.int 1)))

/-- A vertex of the model with an id that it can be found by, and with stored
forms for properties. -/
structure Stands (m : Model) (g : Graph) (k : Handle) : Prop where
  sound : Graph.Sound [] g
  entry : ∃ e ∈ g.vertices, e.2 = k
  label : (g.element k).label.equal m.label = true
  scalar : (g.element k).id.isScalar = true
  noSymbol : ∀ s, (g.element k).id ≠ .symbol s
  required : requireId (g.element k).id = .ok ()
  held : Held m (g.element k).props

theorem Stands.lt_size (hk : Stands m g k) :
    k < g.size ∧ (g.element k).isEdge = false := by
  obtain ⟨e, he, rfl⟩ := hk.entry
  exact hk.sound.vertex e he

/-- The vertex is the one that its id names. -/
theorem Stands.target (hvertex : m.isEdge = false) (hk : Stands m g k) :
    Filter.target m (g.element k).id g = some k := by
  have hscalar := hk.scalar
  have hproper : (g.element k).id.isProper = true := by
    cases hid : (g.element k).id with
    | symbol s => rfl
    | _ => first | rfl | (rw [hid] at hscalar; cases hscalar)
  refine (Filter.target_eq_some_iff hk.sound hscalar).mpr
    ⟨?_, hk.label, Value.same_self _ hproper⟩
  unfold Filter.stored
  rw [hvertex]
  exact hk.entry

/-- A scalar that is no member of an enumeration is in normal form. -/
theorem Stands.normalize (hk : Stands m g k) :
    Result.normalize (g.element k).id = (g.element k).id := by
  have hscalar := hk.scalar
  cases hid : (g.element k).id with
  | symbol s => exact absurd hid (hk.noSymbol s)
  | _ => first | rfl | (rw [hid] at hscalar; cases hscalar)

/-- Other stored forms leave the vertex where it stands. -/
theorem Stands.withProps (hk : Stands m g k) {es : Entries} (hes : Held m es) :
    Stands m (g.withProps k es) k := by
  have hsame := Graph.sameBut_withProps g k es
  refine ⟨hsame.sound hk.sound, hsame.vertices ▸ hk.entry,
    hsame.label ▸ hk.label, hsame.id ▸ hk.scalar, hsame.id ▸ hk.noSymbol,
    hsame.id ▸ hk.required, ?_⟩
  rw [Graph.props_withProps hk.lt_size.1]
  exact hes

section

variable (hname : name ≠ "") (hvertex : m.isEdge = false) (h : m.Apart)

include hname hvertex h

/-- The vertex is found, and its record is all that is found. -/
theorem does_findById (hfree : m.RowFree) (hk : Stands m g k) :
    Does name m g (findById (some name) (g.element k).id .null)
      (.map (read m (g.element k))) g := by
  obtain ⟨face, hface⟩ := h.plainId.faced
  have hsees : Sees m g k := ⟨hk.lt_size.2, hk.held.readable⟩
  have hsteps : Build.traversalFrom []
      (Query.query m (.map (searchFor m (g.element k).id)))
        = .ok (searchSteps m (g.element k).id) :=
    Query.query_whole h (List.cons_ne_nil _ _) rfl rfl rfl rfl
      (Filter.select_scalar hface hk.scalar)
  have hgo : g.evaluate (searchSteps m (g.element k).id)
      = (.ok (([k].map (rowFor m g)).map .row), g) := by
    have hsought := Filter.on_sought (m := m) (g := g) hk.scalar
      (searchSteps m (g.element k).id).tail.tail
    rw [hk.target hvertex] at hsought
    have hrows : [k].mapM (g.rowOf (Query.readKeys m))
        = .ok ([k].map (rowFor m g)) := by
      rw [List.mapM_cons, (record_of_vertex hvertex h hfree hsees).1]
      rfl
    have hread := Graph.on_elementMap (g := g) (Query.readKeys m) [k]
      (Query.cuts .skip (some (.int 0)) ++ Query.cuts .limit (some (.int 1)))
    rw [hrows] at hread
    exact hsought.trans hread
  have hall : Does name m g
      (all (some name) (.map (searchFor m (g.element k).id)) .null)
        (.list ([k].map fun k => .map (read m (g.element k)))) g :=
    does_all hvertex h hfree hname
      (fun j hj => (List.mem_singleton.mp hj).symm ▸ hsees) rfl rfl hsteps hgo
  refine does_model.bind
    ((does_check hk.required).bind ((does_check rfl).bind ?_))
  exact hall.bind (does_pure _)

variable (hs : m.Saveable)

include hs

/-- What has been found is saved, and the properties are stored again. -/
private theorem does_save (hk : Stands m g k) :
    Does name m g (save (some name) (.map (read m (g.element k))) .null) .null
      (g.withProps k (saved m (g.element k))) := by
  have hid : Entries.get m.idField (read m (g.element k))
      = (g.element k).id := by
    unfold Entries.get
    rw [lookup?_read_id h, hk.normalize]
    rfl
  obtain ⟨steps, hsteps, hgo⟩ :=
    Query.evaluate_replace_read h hs hvertex hk.held hk.scalar
      (hk.target hvertex)
  refine does_model.bind ((does_check rfl).bind ?_)
  rw [hid]
  refine (does_check hk.required).bind
    ((does_check (a := Options.standard) rfl).bind ?_)
  refine Does.observed ?_ _ _
  refine (does_build hsteps).bind ?_
  exact (does_execute hname rfl hgo rfl rfl).bind (does_pure _)

/-- One round after the other stores the properties again. -/
private theorem does_resaves (n : Nat) (hk : Stands m g k) : ∃ es,
    Does name m g (resaves (some name) (g.element k).id n) ()
    (g.withProps k es) ∧ Held m es ∧
      ∀ f ∈ m.others, Entries.lookup? f.key es
        = (Entries.lookup? f.key (g.element k).props).map
          f.type.again^[n] := by
  induction n generalizing g with
  | zero =>
      refine ⟨(g.element k).props, ?_, hk.held, fun f _ => ?_⟩
      · rw [Graph.withProps_props]
        exact does_pure ()
      · rw [Function.iterate_zero, Option.map_id_fun, id]
  | succ n ih =>
      have hsaved := held_saved h hs hk.held
      obtain ⟨es, hrest, hheld, hlookup⟩ := ih (hk.withProps hsaved)
      have hsame := Graph.sameBut_withProps g k (saved m (g.element k))
      refine ⟨es, ?_, hheld, fun f hf => ?_⟩
      · rw [hsame.id, Graph.withProps_withProps] at hrest
        refine (does_findById hname hvertex h hs.rowFree hk).bind ?_
        exact (does_save hname hvertex h hs hk).bind hrest
      · rw [hlookup f hf, Graph.props_withProps hk.lt_size.1,
          lookup?_saved h hs hk.held hf, Option.map_map, Function.iterate_succ]

end

-- ============================================================== what changes

/-- Users with an age, and with a profile that is stored as JSON text. -/
def profileModel : Model where
  label := .text "User"
  name := "User"
  named := rfl
  kind := .vertex
  fields := [⟨.text "age", .number, .null⟩,
    ⟨.text "profile", .object, .text "profile_json"⟩]
  retry := .standard
  idField := .text "id"

def profileRecord : Entries :=
  [(.text "id", .text "p1"), (.text "age", .int 41),
    (.text "profile", .map [(.text "a", .int 1)])]

/-- A connector to an empty server. -/
def profileConnector : Connector :=
  { sampleConnector with
    registry := Registry.empty.register profileModel
    server := .ofGraph .empty }

theorem profileModel_apart : profileModel.Apart :=
  Model.apart_of_plain (by decide) (by decide) (by decide) (by decide)
    (by decide) (by decide)

theorem profileModel_saveable : profileModel.Saveable :=
  ⟨⟨by decide, by decide⟩, by decide, by decide, by decide⟩

theorem declared_profileRecord : Declared profileModel profileRecord := by
  have hplain : ∀ p ∈ profileRecord, p.1.IsPlain := by decide
  exact ⟨⟨fun p hp => (hplain p hp).faced, by decide⟩, hplain, by decide⟩

/-- Badges with keys of their own, and with an `id` that is stored as their
code. -/
def badgeModel : Model where
  label := .text "Badge"
  name := "Badge"
  named := rfl
  kind := .vertex
  fields := [⟨.text "id", .string, .text "code"⟩]
  retry := .standard
  idField := .text "key"

def badgeConnector : Connector :=
  { profileConnector with registry := Registry.empty.register badgeModel }

private theorem badgeModel_apart : badgeModel.Apart :=
  Model.apart_of_plain (by decide) (by decide) (by decide) (by decide)
    (by decide) (by decide)

/-- Where a connector is left by a creation. -/
def created (model : String) (record : Entries) (c : Connector) : Connector :=
  (create (some model) (.map record) .null c).2

/-- One round makes a property of an element another one. -/
def Turns (model : String) (id : Value) (c : Connector) (k : Handle)
    (key : Value) (before after : Option Value) : Prop :=
  ∃ c', resaves (some model) id 1 c = (.ok (), c') ∧
    Entries.lookup? key (c.server.graph.element k).props = before ∧
    Entries.lookup? key (c'.server.graph.element k).props = after

/-- The text of an object becomes the JSON text of that text. -/
private theorem turns_profile :
    Turns "User" (.text "p1") (created "User" profileRecord profileConnector) 0
      (.text "profile_json") (some (.text "\x7b\"a\": 1\x7d"))
      (some (.text "\"\x7b\\\"a\\\": 1\x7d\"")) :=
  ⟨_, rfl, rfl, rfl⟩

/-- A badge without a code gets the id of its vertex for one. -/
private theorem turns_badge :
    Turns "Badge" (.text "b1")
      (created "Badge" [(.text "key", .text "b1")] badgeConnector) 0
      (.text "code") none (some (.text "b1")) :=
  ⟨_, rfl, rfl, rfl⟩

/-- A vertex whose id is a member of an enumeration is saved as the one with
the member's name. -/
private theorem turns_symbol :
    Turns "User" (.symbol (.fieldType .string))
      (created "User" [(.text "id", .symbol (.fieldType .string))]
        (created "User" [(.text "id", .text "STRING"), (.text "age", .int 1)]
          profileConnector))
      0 (.text "age") (some (.int 1)) none :=
  ⟨_, rfl, rfl, rfl⟩

/-- Saving what has been read changes objects, models with a field named `id`,
and other elements than one whose id is a member of an enumeration. -/
theorem resaves_changes :
    (profileModel.Apart ∧ profileModel.Saveable ∧
      Turns "User" (.text "p1")
        (created "User" profileRecord profileConnector) 0
        (.text "profile_json") (some (.text "\x7b\"a\": 1\x7d"))
        (some (.text "\"\x7b\\\"a\\\": 1\x7d\""))) ∧
    (badgeModel.Apart ∧ badgeModel.others.map Field.key = [.text "code"] ∧
      Turns "Badge" (.text "b1")
        (created "Badge" [(.text "key", .text "b1")] badgeConnector) 0
        (.text "code") none (some (.text "b1"))) ∧
    Turns "User" (.symbol (.fieldType .string))
      (created "User" [(.text "id", .symbol (.fieldType .string))]
        (created "User" [(.text "id", .text "STRING"), (.text "age", .int 1)]
          profileConnector))
      0 (.text "age") (some (.int 1)) none :=
  ⟨⟨profileModel_apart, profileModel_saveable, turns_profile⟩,
    ⟨badgeModel_apart, rfl, turns_badge⟩, turns_symbol⟩

-- ==================================================================== main

/-- Reading a vertex and saving what has been read stores its properties again,
once for each time, and does nothing else.

The vertex is one of the model, and has been written with a record of declared
fields; its id is a scalar that is not refused and no member of an enumeration.
Each search and each saving succeeds, and no other element changes, nor the id
and the label of this one. Before and after it has stored forms under storage
keys of fields, and nothing else; it has one for a field afterwards if and only
if it has had one, and this is the same one if the field is no object and no
array. What is stored for objects and arrays is text, and has become the JSON
text of itself, as many times. -/
theorem resaves_again (hname : name ≠ "") (hvertex : m.isEdge = false)
    (h : m.Apart) (hs : m.Saveable) (hg : g.Reachable)
    (hentry : ∃ e ∈ g.vertices, e.2 = k)
    (hlabel : (g.element k).label.equal m.label = true)
    (hscalar : (g.element k).id.isScalar = true)
    (hsymbol : ∀ s, (g.element k).id ≠ .symbol s)
    (hrequired : requireId (g.element k).id = .ok ())
    (hwritten : Query.Written m (g.element k).props) {c : Connector}
    (hc : Ready name m g c) (n : Nat) :
    ∃ c' g', resaves (some name) (g.element k).id n c = (.ok (), c') ∧
      Ready name m g' c' ∧ Graph.SameBut k g g' ∧ Held m (g.element k).props ∧
      Held m (g'.element k).props ∧
      (∀ f ∈ m.others, Entries.lookup? f.key (g'.element k).props
        = (Entries.lookup? f.key (g.element k).props).map f.type.again^[n]) ∧
      (∀ f ∈ m.others, f.type ≠ .object → f.type ≠ .array →
        Entries.lookup? f.key (g'.element k).props
          = Entries.lookup? f.key (g.element k).props) := by
  have hheld := Query.held_of_written h hs.storable hvertex hwritten
  have hk : Stands m g k :=
    ⟨hg.sound, hentry, hlabel, hscalar, hsymbol, hrequired, hheld⟩
  obtain ⟨es, hdoes, hes, hlookup⟩ := does_resaves hname hvertex h hs n hk
  obtain ⟨c', hgo, hc'⟩ := hdoes c hc
  have hprops := Graph.props_withProps hk.lt_size.1 es
  refine ⟨c', g.withProps k es, hgo, hc', Graph.sameBut_withProps g k es,
    hheld, ?_, ?_, ?_⟩
  · rw [hprops]
    exact hes
  · rw [hprops]
    exact hlookup
  · intro f hf hobject harray
    have hself : f.type.again^[n] = id :=
      (congrArg (Nat.iterate · n)
        (funext (again_eq_self hobject harray))).trans (Function.iterate_id n)
    rw [hprops, hlookup f hf, hself, Option.map_id, id]

/-- Two rounds leave the age of the profile's vertex, which has just been
created, as it is. -/
theorem resaves_again_profile : ∃ c c' g',
    create (some "User") (.map profileRecord) .null profileConnector
      = (.ok (.text "p1"), c) ∧
      resaves (some "User") (.text "p1") 2 c = (.ok (), c') ∧
      Graph.SameBut 0 c.server.graph g' ∧ c'.server.graph = g' ∧
      Entries.lookup? (.text "age") (g'.element 0).props = some (.int 41) := by
  let steps : List Step := [.call .addVertex [.text "User"],
    .call .property [.idKey, .text "p1"],
    .call .property [.text "age", .int 41],
    .call .property [.text "profile_json", .text "\x7b\"a\": 1\x7d"]]
  let c := created "User" profileRecord profileConnector
  have hgraph : (Graph.empty.evaluate steps).2 = c.server.graph := rfl
  have hreach : c.server.graph.Reachable := hgraph ▸ .evaluate .empty rfl
  have hwritten : Query.Written profileModel
      (c.server.graph.element 0).props :=
    .create declared_profileRecord rfl
      (show Graph.empty.evaluate steps = (.ok [.element 0], c.server.graph)
        from rfl) rfl
  obtain ⟨c', g', hgo, hready, hsame, -, -, -, hstays⟩ := resaves_again
    (show "User" ≠ "" by decide) rfl profileModel_apart profileModel_saveable
      hreach
    ⟨(.text "p1", 0), List.mem_singleton.mpr rfl, rfl⟩ rfl rfl
      (fun _ hs => nomatch hs) rfl hwritten
    ⟨⟨rfl, rfl, rfl⟩, rfl⟩ 2
  refine ⟨c, c', g', rfl, hgo, hsame, hready.graph, ?_⟩
  exact hstays _ List.mem_cons_self (by decide) (by decide)

end Act

end GraphMapper

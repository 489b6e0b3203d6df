/-
What has been created when a creation succeeds.

Where nothing is in its way, a creation outside of transactions makes one
element, with the label of the model and between the vertices that its record
refers to, and gives back the id of it as results show ids. There is one way
for it to succeed without that: an edge that would have to start at a vertex
which is not there. It is not made, nobody is told, and the answer is nothing.
If it is the other end that is not there, the creation fails
(`Query.StartsNowhere`, `Graph.noTarget`).

Main statement: `create_gains`.

Chain: `Query.Creating` for the graph, `Connector.Outcomes` for acts that are
known to the last; `Connector.Finding` looks for what has been created.
-/
import GraphMapper.Proofs.Connector.ById
import GraphMapper.Proofs.Connector.Outcomes
import GraphMapper.Proofs.Connector.Work
import GraphMapper.Proofs.Query.Creating

namespace GraphMapper

namespace Result

variable {es more : Entries} {v w : Value}

/-- A reference to an end leaves the id of an edge as it is. -/
private theorem id_withReference {field : String} (hfield : field ≠ "id")
    {theEnd : Value} (h : withReference field theEnd es = .ok more) :
    Entries.field "id" more = Entries.field "id" es := by
  have hother : (Value.text field).face? ≠ some (.text "id") := by
    simpa [Value.face?] using hfield
  unfold withReference at h
  split at h
  · obtain ⟨label, -, h⟩ := bind_eq_ok h
    obtain ⟨id, -, h⟩ := bind_eq_ok h
    rw [← Except.ok.inj h]
    unfold Entries.field Entries.get
    rw [Entries.lookup?_insert_of_ne rfl hother]
  · rw [← Except.ok.inj h]

/-- The record of an edge has the id under the name that all elements have it
under. -/
theorem id_collapseEdge (h : collapseEdge es = .ok more) :
    Entries.field "id" more = Entries.field "id" es := by
  have hkept : ∀ e ∈ es, e.1.sameKey (.text "id") = true →
      (!e.1.isIn endKeys && !e.1.equal (.text "label")) = true := by
    intro e _ hid
    have hface := (Value.sameKey_iff_face rfl).mp hid
    have hends : e.1.isIn endKeys = false := by
      rw [Bool.eq_false_iff]
      intro hin
      obtain ⟨key, hkey, hsame⟩ := List.any_eq_true.mp hin
      have hkey' := (Value.same_iff_face hface).mp hsame
      rcases List.mem_cons.mp hkey with rfl | hkey
      · simp [Value.face?] at hkey'
      · rw [List.mem_singleton.mp hkey] at hkey'
        simp [Value.face?] at hkey'
    have hlabel : e.1.equal (.text "label") = false := by
      rw [Bool.eq_false_iff]
      intro hequal
      have hlabel := hface.symm.trans ((Value.equal_iff_face rfl).mp hequal)
      simp at hlabel
    rw [hends, hlabel]
    rfl
  unfold collapseEdge at h
  obtain ⟨withFrom, hfrom, hto⟩ := bind_eq_ok h
  rw [id_withReference (by decide) hto, id_withReference (by decide) hfrom]
  unfold Entries.field Entries.get
  rw [Entries.lookup?_filter hkept]

/-- What is presented of an element has its id in normal form, if it can be
presented. -/
private theorem id_present {g : Graph} {k : Handle} {edge : Bool}
    (hraw : g.elementValue (g.element k) = .ok v)
    (h : present edge v = .ok w) :
    ∃ es, w = .map es ∧
      Entries.field "id" es = normalize (g.element k).id := by
  have hnormal : ∃ es, normalize v = .map es ∧
      Entries.field "id" es = normalize (g.element k).id := by
    unfold Graph.elementValue at hraw
    split at hraw
    · rw [← Except.ok.inj hraw]
      exact ⟨_, rfl, rfl⟩
    · split at hraw
      · rw [← Except.ok.inj hraw]
        exact ⟨_, rfl, rfl⟩
      · cases hraw
  obtain ⟨es, hes, hid⟩ := hnormal
  unfold present at h
  rw [hes] at h
  simp only at h
  split at h
  · obtain ⟨more, hmore, h⟩ := bind_eq_ok h
    exact ⟨more, (Except.ok.inj h).symm, (id_collapseEdge hmore).trans hid⟩
  · exact ⟨es, (Except.ok.inj h).symm, hid⟩

end Result

namespace Act

variable {name : String} {m : Model} {g g' : Graph} {record options v : Value}
  {o : Options}

/-- The id of a new element as the application gets it: in normal form, if
results are brought into it. -/
def shownId (o : Options) (id : Value) : Value :=
  if o.parse then Result.normalize id else .null

/-- What a creation makes of the result of its traversal. -/
def createdId : Value → Value
  | .map es => Entries.field "id" es
  | _ => .null

/-- The result for a new element is its id, or a failure of what presents
it. -/
private theorem finish_created {label : Value} {ends : Option Ends}
    (hgains : Graph.Gains label ends g g')
    (hends : ∀ e, ends = some e → e.target.isSome = true) (o : Options) :
    ∃ raw, Server.complete g' .next [.element g.size] = .ok raw ∧
      Yields (o.finish (some m) .next raw) fun v => createdId v
        = shownId o (g'.ids g.size) := by
  obtain ⟨raw, hraw⟩ : ∃ raw, g'.elementValue (g'.element g.size)
      = .ok raw := by
    unfold Graph.elementValue
    rw [hgains.joins]
    cases ends with
    | none => exact ⟨_, rfl⟩
    | some e =>
        obtain ⟨t, ht⟩ := Option.isSome_iff_exists.mp (hends e rfl)
        exact ⟨_, by simp only [ht]; rfl⟩
  refine ⟨raw, hraw, fun v hv => ?_⟩
  unfold Options.finish at hv
  rw [if_neg (by decide)] at hv
  unfold shownId
  split at hv
  · next hparse =>
    obtain ⟨es, rfl, hid⟩ := Result.id_present hraw hv
    rw [if_pos hparse]
    exact hid
  · next hparse =>
    rw [if_neg hparse, ← Except.ok.inj hv]
    unfold Graph.elementValue at hraw
    split at hraw
    · rw [← Except.ok.inj hraw]
      rfl
    · split at hraw
      · rw [← Except.ok.inj hraw]
        rfl
      · cases hraw

/-- Refused writes and targets that are not there are failures for good. -/
private theorem not_isTransient_create {e : Failure}
    (h : e.IsTextless ∨ e = Graph.noTarget) :
    e.isTransient = false := by
  rcases h with (rfl | rfl) | rfl <;> decide

theorem create_eq_createdId (model : Option String) (record options : Value) :
    create model record options
      = changing "create" model (Query.create · record) .next
        options fun _ v =>
          pure (createdId v) := by
  rw [create_eq]
  congr 1
  funext _ v
  cases v <;> rfl

section

variable (hname : name ≠ "") (hjoined : o.joined = none) {steps : List Step}
  (hsteps : Build.traversalFrom [] (Query.create m record) = .ok steps)

include hname hjoined hsteps

/-- A creation makes an element, fails, or does nothing because there is
nothing to start at. -/
private theorem mutate_create (hs : Graph.Sound [] g)
    (hfresh : Query.Fresh m record g) :
    Fails name m g (mutate (some name) (Query.create · record) o .next) ∨
    (Query.StartsNowhere m record g ∧
      Does name m g (mutate (some name) (Query.create · record) o
        .next) .null g) ∨
    ∃ ends g' v, Query.Joins m record g ends ∧ Graph.Gains m.label ends g g' ∧
      createdId v = shownId o (g'.ids g.size) ∧
      Does name m g
        (mutate (some name) (Query.create · record) o .next) v g' := by
  rw [mutate_alone hjoined]
  rcases Query.evaluate_create hs hfresh hsteps with
    ⟨e, g', hgo, he⟩ | ⟨hnowhere, hgo⟩ | ⟨ends, g', hjoins, hgo, hgains⟩
  · refine .inl ((does_build hsteps).fails ?_)
    exact fails_execute hname hjoined hgo (not_isTransient_create he)
  · have hfinish : o.finish (some m) .next .null = .ok .null := by
      unfold Options.finish
      cases o.parse <;> rfl
    refine .inr (.inl ⟨hnowhere, (does_build hsteps).bind ?_⟩)
    exact does_execute hname hjoined hgo rfl hfinish
  · have hends : ∀ e, ends = some e → e.target.isSome = true := by
      rintro e rfl
      obtain ⟨-, -, -, t, -, -, -, ht⟩ := hjoins
      rw [ht]
      rfl
    obtain ⟨raw, hraw, hid⟩ := finish_created (m := m) hgains hends o
    cases hfinish : o.finish (some m) .next raw with
    | error e =>
        refine .inl ((does_build hsteps).fails ?_)
        exact fails_finish hname hjoined hgo hraw hfinish
    | ok v =>
        refine .inr (.inr ⟨ends, g', v, hjoins, hgains, hid v hfinish, ?_⟩)
        exact (does_build hsteps).bind
          (does_execute hname hjoined hgo hraw hfinish)

end

/-- A creation that succeeds outside of transactions has created.

The server has no answer prepared and no failure, the graph can be any that
there can be, and no id that the new element gets is taken. The graph then has
one more element, with the label of the model and, for an edge, between the
vertices that the record refers to; the answer is its id as results show ids,
and all else is as it was. If the vertex that an edge would start at is not
there, nothing at all has been done, and the answer is nothing. -/
theorem create_gains (hname : name ≠ "") (hg : g.Reachable)
    (hfresh : Query.Fresh m record g) (ho : Options.ofValue options = .ok o)
    (hjoined : o.joined = none) {c c' : Connector} (hc : Ready name m g c)
    (hgo : create (some name) record options c = (.ok v, c')) :
    ∃ g', Ready name m g' c' ∧
      ((∃ ends, Query.Joins m record g ends ∧ Graph.Gains m.label ends g g' ∧
          v = shownId o (g'.ids g.size)) ∨
        Query.StartsNowhere m record g ∧ g' = g ∧ v = .null) := by
  rw [create_eq_createdId] at hgo
  -- the run is known, so whatever the change does is what it did
  have hdone : ∀ {w : Value} {g' : Graph},
      Does name m g (mutate (some name) (Query.create · record) o .next) w g' →
        v = createdId w ∧ Ready name m g' c' := by
    intro w g' hdoes
    obtain ⟨c'', hact, hc''⟩ :=
      does_changing (k := fun _ v => pure (createdId v)) ho hdoes rfl
        "create" c hc
    rw [hgo] at hact
    obtain ⟨hv, rfl⟩ := Prod.mk.inj hact
    exact ⟨Except.ok.inj hv, hc''⟩
  have hnot : ¬Fails name m g
      (mutate (some name) (Query.create · record) o .next) := by
    intro hfails
    obtain ⟨e, c'', hact⟩ := fails_changing ho hfails _ "create" c hc
    rw [hgo] at hact
    cases hact
  cases hsteps : Build.traversalFrom [] (Query.create m record) with
  | error e =>
      rw [mutate_alone hjoined] at hnot
      exact absurd ((fails_build hsteps).bind _) hnot
  | ok steps =>
      -- a creation fails, finds no start, or gains one element; the run
      -- answered, so it is one of the last two
      rcases mutate_create hname hjoined hsteps hg.sound hfresh with
        hfails | ⟨hnowhere, hdoes⟩ | ⟨ends, g', w, hjoins, hgains, hid, hdoes⟩
      · exact absurd hfails hnot
      · obtain ⟨hv, hc'⟩ := hdone hdoes
        exact ⟨g, hc', .inr ⟨hnowhere, rfl, hv⟩⟩
      · obtain ⟨hv, hc'⟩ := hdone hdoes
        exact ⟨g', hc', .inl ⟨ends, hjoins, hgains, hv.trans hid⟩⟩

-- ================================================================ an instance

/-- Edges between persons. -/
def friendModel : Model where
  label := .text "Knows"
  name := "Knows"
  named := rfl
  kind := .edge
  fields := [⟨.text "since", .number, .null⟩]
  retry := .standard
  idField := .text "id"

def friendRecord : Value :=
  .map [(.text "id", .text "k1"), (.text "from", .text "Person/p1"),
    (.text "to", .text "Person/p2"), (.text "since", .int 2019)]

def friendConnector : Connector :=
  { sampleConnector with registry := Registry.empty.register friendModel }

/-- Whether applications can have made the ids that steps give. -/
def givesProper (steps : List Step) : Bool :=
  steps.all fun
    | .call .property [.idKey, id] => id.isProper
    | _ => true

/-- The first person comes to know the second. -/
theorem create_gains_friend : ∃ id c' ends,
    create (some "Knows") friendRecord .null friendConnector = (.ok id, c') ∧
      Graph.Gains (.text "Knows") (some ends) Filter.sampleGraph
        c'.server.graph ∧
      ends.origin = 0 ∧ ends.target = some 1 ∧
      id = shownId .standard
        (c'.server.graph.ids Filter.sampleGraph.size) := by
  have hfresh : Query.Fresh friendModel friendRecord Filter.sampleGraph := by
    refine ⟨fun e he => (nomatch he), fun steps id hsteps hid => ?_⟩
    have hgives :
        ((Build.traversalFrom []
          (Query.create friendModel friendRecord)).toOption.map givesProper)
            = some true := by
      decide +kernel
    rw [hsteps] at hgives
    have hproper := List.all_eq_true.mp (Option.some.inj hgives) _ hid
    exact ⟨hproper, fun e he => (nomatch he)⟩
  have hrefs : (Query.references friendModel friendRecord).toOption
      = some (("Person", "p1"), ("Person", "p2")) := by
    decide +kernel
  have horigin : Filter.sampleGraph.named ("Person", "p1") = some 0 := by
    decide +kernel
  have htarget : Filter.sampleGraph.named ("Person", "p2") = some 1 := by
    decide +kernel
  have hdone :
      (create (some "Knows") friendRecord .null friendConnector).1.isOk
        = true := by
    decide +kernel
  have hready : Ready "Knows" friendModel Filter.sampleGraph friendConnector :=
    ⟨⟨rfl, rfl, rfl⟩, rfl⟩
  obtain ⟨id, c', hrun⟩ := exists_ok_of_isOk hdone
  have hcreated := create_gains (show "Knows" ≠ "" by decide)
    Filter.sampleGraph_reachable hfresh (show Options.ofValue .null
      = .ok .standard from rfl) rfl hready hrun
  -- both references are found, so the case without a start falls away
  obtain ⟨g', hc', ⟨ends, hjoins, hgains, hid⟩
      | ⟨⟨-, origin, target, hboth, hnowhere⟩, -, -⟩⟩ :=
    hcreated
  · rw [← hc'.graph] at hgains hid
    match ends, hjoins with
    | some ends, ⟨_, origin, target, t, hboth, hfrom, hto, ht⟩ =>
      rw [hboth] at hrefs
      obtain ⟨rfl, rfl⟩ := Prod.mk.inj (Option.some.inj hrefs)
      refine ⟨id, c', ends, hrun, hgains, ?_, ?_, hid⟩
      · exact Option.some.inj (hfrom.symm.trans horigin)
      · exact ht.trans (hto.symm.trans htarget)
  · rw [hboth] at hrefs
    obtain ⟨rfl, rfl⟩ := Prod.mk.inj (Option.some.inj hrefs)
    rw [horigin] at hnowhere
    cases hnowhere

end Act

end GraphMapper

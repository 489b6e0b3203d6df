/-
A replacement overwrites all of an element but what makes it the element that
it is.

All properties are dropped before the record is written, so what is not written
then is lost. That is right for the fields that the record does not have, for
the primary key, which is no property, and for the ends of an edge, which a
change leaves alone. It is lost without need where a field is stored under the
name of an end of an edge and the model is none of edges: a creation and an
update write such a field.

Main statement: `replace_overwrites`.

Chain: `Query.Replacing` for the element, `Connector.Reads` for the rest of the
call.
-/
import GraphMapper.Proofs.Connector.Reads
import GraphMapper.Proofs.Query.Replacing

namespace GraphMapper

namespace Act

open Record GraphMapper.Filter

variable {name : String} {m : Model} {g g' : Graph} {es : Entries}
  {id record options : Value} {o : Options} {steps : List Step}
  {items : List Item}

/-- A replacement outside of transactions gives nothing back. -/
private theorem does_replaceById (hname : name ≠ "")
    (hid : requireId id = .ok ())
    (ho : Options.ofValue options = .ok o) (halone : o.joined = none)
    (hsteps : Build.traversalFrom [] (Query.replace m id record) = .ok steps)
    (hgo : g.evaluate steps = (.ok items, g')) :
    Does name m g (replaceById (some name) id record options) .null g' := by
  rw [replaceById_eq]
  refine (does_check hid).bind ?_
  exact does_changing ho (does_mutate_iterate hname halone hsteps hgo) rfl
    "replace_by_id"

/-- A replacement of an element of a model by a record of declared fields goes
through. The element then has the stored forms of the record under the storage
keys for its properties, and no others, but for what is stored under the names
of the ends of an edge, which is left out also where the model is none of
edges; if no field is stored there, it has exactly what the record gives it,
the primary key aside and the references of an edge. Its id, its label and its
ends stay, and so does every other element. -/
theorem replace_overwrites (hname : name ≠ "") (h : m.Unmixed)
    (hg : g.Reachable) {e : Value × Handle} (he : e ∈ stored m g)
    (hlabel : (g.element e.2).label.equal m.label = true)
    (hid : id.isScalar = true) (hempty : id ≠ .text "")
    (hsame : (g.element e.2).id.same id = true)
    (hdistinct : Entries.Distinct es) (hes : Writable m (kept m es))
    (ho : Options.ofValue options = .ok o) (halone : o.joined = none)
    {c : Connector} (hc : Ready name m g c) :
    ∃ g' c', replaceById (some name) id (.map es) options c = (.ok .null, c') ∧
      Ready name m g' c' ∧ Graph.SameBut e.2 g g' ∧
      Replaced m (kept m es) (g'.element e.2).props ∧
      ((∀ f ∈ m.others, offEnds f.key = true) →
        Assigned m (kept m es) (g'.element e.2).props) := by
  have htarget : target m id g = some e.2 :=
    (target_eq_some_iff hg.sound hid).mpr ⟨⟨e, he, rfl⟩, hlabel, hsame⟩
  obtain ⟨steps, hsteps, hgo, hprops⟩ :=
    Query.evaluate_replace h hdistinct hes hid hg.sound htarget
      (hg.keyed e.2)
  obtain ⟨c', hrun, hc'⟩ :=
    does_replaceById hname (requireId_scalar hid hempty) ho halone
      hsteps hgo c hc
  have hreplaced := replaced_replacing h hes
  rw [← hprops] at hreplaced
  exact ⟨_, c', hrun, hc', Graph.sameBut_withProps g e.2 _, hreplaced,
    hreplaced.assigned⟩

/-- A name and an id, and no age. -/
def sampleRename : Entries :=
  [(.text "name", .text "Bea"), (.text "id", .text "p7")]

private theorem writable_sampleRename :
    Writable sampleModel (kept sampleModel sampleRename) := by
  have hfaced : ∀ p ∈ sampleRename, p.1.IsPlain := by decide
  refine ⟨⟨⟨fun p hp => (hfaced p hp).faced, by decide⟩, by decide⟩,
    fun f hf v hv => ?_⟩
  rcases List.mem_cons.mp hf with rfl | hf
  · exact nomatch (show none = some v from hv)
  · obtain rfl := List.mem_singleton.mp hf
    rw [← Option.some.inj (show some (Value.text "Bea") = some v from hv)]
    exact ⟨_, rfl⟩

/-- The age of the first person goes, her id stays, and so does the second
person. -/
theorem replace_overwrites_sample : ∃ c',
    replaceById (some "Person") (.text "p1") (.map sampleRename) .null
        sampleConnector
      = (.ok .null, c') ∧
      Entries.lookup? (.text "full_name") (c'.server.graph.element 0).props
        = some (.text "Bea") ∧
      Entries.lookup? (.text "age") (c'.server.graph.element 0).props = none ∧
      (c'.server.graph.element 0).id = .text "p1" ∧
      c'.server.graph.element 1 = sampleGraph.element 1 := by
  have hunmixed : sampleModel.Unmixed :=
    sampleModel_apart.unmixed
      ⟨by unfold Model.RowFree; decide, by decide, by decide⟩
  obtain ⟨g', c', hrun, hready, hsame, -, hassigned⟩ :=
    replace_overwrites (c := sampleConnector) (show "Person" ≠ "" by decide)
      hunmixed sampleGraph_reachable (e := (.text "p1", 0))
      List.mem_cons_self rfl rfl
      (show Value.text "p1" ≠ .text "" by simp) rfl
      writable_sampleRename.distinct writable_sampleRename
      (show Options.ofValue .null = .ok .standard from rfl) rfl
        ⟨⟨rfl, rfl, rfl⟩, rfl⟩
  have hprops := hassigned (by decide)
  refine ⟨c', hrun, ?_, ?_, ?_, ?_⟩
  · rw [hready.graph,
      show Entries.lookup? (.text "full_name") (g'.element 0).props
        = _ from hprops.stored _ (List.mem_cons_of_mem _ List.mem_cons_self)]
    rfl
  · rw [hready.graph, show Entries.lookup? (.text "age") (g'.element 0).props
      = _ from hprops.stored _ List.mem_cons_self]
    rfl
  · rw [hready.graph]
    exact hsame.id
  · rw [hready.graph]
    exact hsame.others 1 (by decide)

end Act

end GraphMapper

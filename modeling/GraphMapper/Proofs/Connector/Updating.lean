/-
An update touches only the named fields of what its filter finds.

What an update writes is settled before anything is selected
(`Query.changes_kept`), and what it selects is settled before anything is
written: the elements are looked up once, by the first steps, and the writes
behind them are made to these, whatever the filter would say of them by then
(`Graph.evaluate_rewritings`). So it does not matter that a filter asks for
fields that are written, and the number of elements is that which a count has
given before.

Main statement: `update_touches_only`.

Chain: `Query.Assigning` for the writes, `Graph.Overriding` for what they do,
`Connector.Reads` for the count before.
-/
import GraphMapper.Proofs.Connector.Reads
import GraphMapper.Proofs.Graph.Overriding
import GraphMapper.Proofs.Query.Assigning

namespace GraphMapper

/-- What a field is stored under can be a key. -/
theorem Model.Keyed.hasKeyColumns {m : Model} (h : m.Keyed) :
    Filter.hasKeyColumns m = true := by
  refine List.all_eq_true.mpr fun f hf => ?_
  obtain ⟨face, hface⟩ := h.facedKey f hf
  unfold Field.key at hface
  cases hgiven : f.column.isGiven with
  | false => rfl
  | true =>
      rw [hgiven, if_pos rfl] at hface
      exact Value.isKey_of_face hface

namespace Act

open Record GraphMapper.Filter

variable {name : String} {m : Model} {g g' : Graph} {es : Entries}
  {filter record options : Value} {o : Options} {steps : List Step} {n : Nat}

/-- An update outside of transactions gives back the number of elements that it
has been made to. -/
private theorem does_updateAll (hname : name ≠ "")
    (ho : Options.ofValue options = .ok o) (halone : o.joined = none)
    (hsteps : Build.traversalFrom [] (Query.update m filter record)
      = .ok steps)
    (hgo : g.evaluate steps = (.ok [.number n], g')) :
    Does name m g (updateAll (some name) filter record options)
        (counted (.int n)) g' := by
  have hfinish : o.finish (some m) .next (.int n) = .ok (.int n) := by
    unfold Options.finish
    rw [if_neg (by decide)]
    split <;> rfl
  have hmutate :
      Does name m g (mutate (some name) (Query.update · filter record) o .next)
        (.int n) g' := by
    rw [mutate_alone halone]
    exact (does_build hsteps).bind (does_execute hname halone hgo rfl hfinish)
  have hcounted : check (countOf (.int n)) = pure (n : Int) := by
    rw [countOf_int]
    rfl
  rw [updateAll_eq]
  refine does_changing ho hmutate ?_ "update_all"
  rw [halone, hcounted, pure_bind]
  rfl

/-- An update by a record of declared fields goes through, and overrides the
fields that the record names, under their storage keys and in their stored
form, in the elements that its filter finds in the graph as it was; nothing
else changes. The primary key is left out, and so are the ends of an edge. The
number it gives back is the one that a count has given before. What a filter
finds is what meets it, unless it asks for one id that is not even equal to
itself. -/
theorem update_touches_only (hname : name ≠ "") (h : m.Unmixed)
    (hg : g.Reachable) (hfilter : filter.isProper = true) {cs : List Condition}
    (hparse : Filter.parse m.conditionKey filter = .ok cs)
    (hdistinct : Entries.Distinct es) (hes : Writable m (kept m es))
    (ho : Options.ofValue options = .ok o) (halone : o.joined = none)
    {c : Connector} (hc : Ready name m g c) :
    ∃ changes g' c₁ c₂, Assigned m (kept m es) changes ∧
      count (some name) filter c
        = (.ok ((Filter.found m filter g).length : Int), c₁) ∧
      Ready name m g c₁ ∧
      updateAll (some name) filter (.map es) options c₁
        = (.ok (counted (.int (Filter.found m filter g).length)), c₂) ∧
      Ready name m g' c₂ ∧
        Graph.Overridden (Filter.found m filter g) changes g g' ∧
      ((∀ v, Filter.soughtId? m.idField filter = .ok (some v) →
        v.equal v = true) →
        Filter.found m filter g = Filter.matching m filter g) := by
  obtain ⟨idFace, hidFace⟩ := h.facedId
  have hkey := Value.isKey_of_face hidFace
  have hself : m.idField.equal m.idField = true :=
    (Value.equal_iff_face hidFace).mpr hidFace
  have hchanges := Query.changes_kept h hdistinct hes
  have hassigned := assigned_properties h hes
  obtain ⟨steps, hselect, hgo⟩ :=
    Filter.evaluate_found h.toKeyed.hasKeyColumns hkey hfilter hparse g
  have hnodup := Filter.nodup_found hg.sound m filter
  -- a count is an update without writes
  have hcount := Graph.evaluate_rewritings hgo hnodup Entries.distinct_nil
  rw [Graph.revised_id g _ Entries.overridden_nil, List.flatMap_nil,
    List.append_nil] at hcount
  have hupdate := Graph.evaluate_rewritings hgo hnodup hassigned.distinct
  have hsteps : Build.traversalFrom [] (Query.update m filter (.map es)) = .ok
      (steps ++ (properties m (kept m es)).flatMap Query.rewriting
        ++ [.call .count []]) := by
    rw [Query.traversalFrom_update, hchanges, hselect]
    rfl
  obtain ⟨c₁, hrun, hc₁⟩ := does_count_selected hname hselect hcount c hc
  obtain ⟨c₂, hrun', hc₂⟩ :=
    does_updateAll hname ho halone hsteps hupdate c₁ hc₁
  exact ⟨_, _, c₁, c₂, hassigned, hrun, hc₁, hrun', hc₂,
    Graph.overridden_revised (Filter.lt_size_of_found hg.sound) _,
    Filter.found_eq_matching hg hkey hself hfilter hparse⟩

/-- A name and an age that the sample filter does not let through. -/
def sampleChange : Entries :=
  [(.text "name", .text "Bea"), (.text "id", .text "p7"),
    (.text "age", .int 20)]

private theorem writable_sampleChange :
    Writable sampleModel (kept sampleModel sampleChange) := by
  have hfaced : ∀ p ∈ sampleChange, p.1.IsPlain := by decide
  refine ⟨⟨⟨fun p hp => (hfaced p hp).faced, by decide⟩, by decide⟩,
    fun f hf v hv => ?_⟩
  rcases List.mem_cons.mp hf with rfl | hf
  · rw [← Option.some.inj (show some (Value.int 20) = some v from hv)]
    exact ⟨_, rfl⟩
  · obtain rfl := List.mem_singleton.mp hf
    rw [← Option.some.inj (show some (Value.text "Bea") = some v from hv)]
    exact ⟨_, rfl⟩

/-- One person is found and changed, though the filter would not find her
afterwards. -/
theorem update_touches_only_sample : ∃ c₁ c₂,
    count (some "Person") sampleFilter sampleConnector = (.ok 1, c₁) ∧
      updateAll (some "Person") sampleFilter (.map sampleChange) .null c₁
        = (.ok (counted (.int 1)), c₂) ∧
      Entries.lookup? (.text "age") (c₂.server.graph.element 0).props
          = some (.int 20) ∧
      Entries.lookup? (.text "full_name") (c₂.server.graph.element 0).props
        = some (.text "Bea") ∧
      (c₂.server.graph.element 0).id = .text "p1" ∧
      c₂.server.graph.element 2 = sampleGraph.element 2 := by
  have hunmixed : sampleModel.Unmixed :=
    sampleModel_apart.unmixed
      ⟨by unfold Model.RowFree; decide, by decide, by decide⟩
  have hfound : found sampleModel sampleFilter sampleGraph = [0] := by
    decide +kernel
  have haccepted : (match parse sampleModel.conditionKey sampleFilter with
      | .ok _ => true
      | .error _ => false) = true := by decide +kernel
  -- the filter is accepted by evaluation; its conditions are named, not
  -- computed
  cases hparse : parse sampleModel.conditionKey sampleFilter with
  | error e =>
      rw [hparse] at haccepted
      cases haccepted
  | ok cs =>
      obtain ⟨changes, g', c₁, c₂, hassigned, hcount, -, hupdate,
          hready, hover, -⟩ :=
        update_touches_only (c := sampleConnector)
          (show "Person" ≠ "" by decide) hunmixed sampleGraph_reachable
          (by decide +kernel) hparse writable_sampleChange.distinct
          writable_sampleChange
          (show Options.ofValue .null = .ok .standard from rfl) rfl
          ⟨⟨rfl, rfl, rfl⟩, rfl⟩
      rw [hfound] at hcount hupdate hover
      have hchosen := hover.chosen 0 List.mem_cons_self
      refine ⟨c₁, c₂, hcount, hupdate, ?_, ?_, ?_, ?_⟩
      · rw [hready.graph, hchosen, Entries.lookup?_overridden rfl,
          show Entries.lookup? (.text "age") changes = _ from
            hassigned.stored _ List.mem_cons_self]
        rfl
      · rw [hready.graph, hchosen, Entries.lookup?_overridden rfl,
          show Entries.lookup? (.text "full_name") changes = _ from
            hassigned.stored _ (List.mem_cons_of_mem _ List.mem_cons_self)]
        rfl
      · rw [hready.graph, hchosen]
        rfl
      · rw [hready.graph, hover.others 2 (by decide)]

end Act

end GraphMapper

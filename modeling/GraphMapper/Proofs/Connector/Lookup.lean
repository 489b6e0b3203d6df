/-
Two ways to an element by its id.

A filter for the primary key may stand alone, and then the index is asked; or
it stands in a row, and then all elements of the model are. The two agree as
long as every element is in the index under its own id and once. That is so in
every graph that calls can bring about, whichever ids they give or take away
(`fit_runCalls`), and so the two filters may stand for each other in every
operation.

# What the two ways could differ in

An index that is not coherent finds another element than a search does, or one
that has been dropped, or one of two. An id that is not equal to itself is
found by its key and by no search. The first is excluded by what calls can
bring about, the second is asked of the id.

Main statement: `ways_by_id_agree`.

Chain: `Connector.Runs` for the graphs, `Query.Lookup` for the operations.
-/
import GraphMapper.Proofs.Connector.Runs
import GraphMapper.Proofs.Query.Lookup

namespace GraphMapper

namespace Connector

open GraphMapper.Filter Query Build

variable {c : Connector} {calls : List Call} {m : Model} {x : Value} {f : Face}

/-- Whatever calls have been made with proper values, an id that is equal to
itself is found alike by a lookup and by a condition on all elements of the
model, with one element at most; and operations that differ in nothing else do
the same with the graph. The primary key has the name of a field. -/
theorem ways_by_id_agree {settings : Settings} {definitions : List Value}
    {graph : Graph} {sink : Sink} {openable : Bool}
    (hdefinitions : ∀ d ∈ definitions, d.isProper = true)
    (hgraph : graph.Reachable)
    (hstart : ofSettings settings definitions graph sink openable = .ok c)
    (hcalls : ∀ call ∈ calls, call.isMade = true)
    (hname : m.idField.face? = some f) (hrole : roleOf m.idField = .field)
    (hscalar : x.isScalar = true) (hself : x.equal x = true) :
    let g := (c.runCalls calls).server.graph
    let alone := byId m x
    let inRow := Value.list [byId m x]
    Filter.select m alone = .ok [source m [x], labelled m.label] ∧
    Filter.select m inRow = .ok [source m [], labelled m.label, identified x] ∧
    g.evaluate [source m [x], labelled m.label]
        = (.ok ((named m x g).map .element), g) ∧
    g.evaluate [source m [], labelled m.label, identified x]
      = (.ok ((named m x g).map .element), g) ∧
    (named m x g).length ≤ 1 ∧
    (∀ es, AlikeOn g (query m (asking alone es)) (query m (asking inRow es))) ∧
    AlikeOn g (Query.count m alone) (Query.count m inRow) ∧
    AlikeOn g (drop m alone) (drop m inRow) ∧
    (∀ record, AlikeOn g (replace m x record) (replaceBy m inRow record)) ∧
    ∀ record, AlikeOn g (update m alone record) (update m inRow record) := by
  intro g alone inRow
  -- a run from a proper start keeps the graph reachable, and there the id and
  -- the row of one id are interchangeable
  have hreach : g.Reachable :=
    (fit_runCalls (fit_ofSettings hdefinitions hgraph hstart) hcalls).graph
  obtain ⟨face, hface⟩ := Value.face_of_scalar hscalar hself
  have halike : Interchanges m g alone inRow :=
    interchanges_row hreach hname hrole hscalar hself
  refine ⟨select_scalar hname hscalar, select_row hname hrole hscalar, ?_, ?_,
    length_named_le hreach.sound hface, alikeOn_query halike,
    alikeOn_count halike, alikeOn_drop halike, fun record => ?_,
    alikeOn_update halike⟩
  · exact on_looked_up hreach hscalar hself []
  · exact on_looked_for hscalar []
  · rw [replace_eq_replaceBy]
    exact alikeOn_replaceBy halike record

/-- Two persons are created under one id, another under one that is made up,
and one is destroyed. -/
def collidingCalls : List Call :=
  [.create (some "Person") (.map [(.text "id", .int 1)]) .null,
    .create (some "Person") (.map [(.text "id", .int 2)]) .null,
    .create (some "Person") (.map [(.text "id", .int 1)]) .null,
    .create (some "Person") (.map []) .null,
    .destroyById (some "Person") (.int 2) .null]

/-- The id names the later one of the two, on either way. -/
theorem ways_by_id_agree_colliding :
    ∃ c, ofSettings sampleSettings [sampleDefinition] .empty .recording true
      = .ok c ∧
      let g := (c.runCalls collidingCalls).server.graph
      g.evaluate [source sampleModel [.int 1], labelled (.text "Person")]
        = (.ok [.element 2], g) ∧
      g.evaluate [source sampleModel [], labelled (.text "Person"),
        identified (.int 1)] = (.ok [.element 2], g) := by
  have hrun : (match ofSettings sampleSettings [sampleDefinition] .empty
      .recording true with
      | .ok c =>
          named sampleModel (.int 1) (c.runCalls collidingCalls).server.graph
              == [2]
      | .error _ => false) = true := by decide +kernel
  cases hstart : ofSettings sampleSettings [sampleDefinition] .empty
      .recording true with
  | error e => rw [hstart] at hrun; cases hrun
  | ok c =>
      rw [hstart] at hrun
      have hnamed : named sampleModel (.int 1)
          (c.runCalls collidingCalls).server.graph = [2] :=
        beq_iff_eq.mp hrun
      obtain ⟨-, -, hshort, hlong, -⟩ :=
        ways_by_id_agree (m := sampleModel) (x := .int 1) (by decide) .empty
          hstart (show ∀ call ∈ collidingCalls, call.isMade = true by decide)
        (show sampleModel.idField.face? = some (.text "id") from rfl) rfl rfl
        (by decide +kernel)
      rw [hnamed] at hshort hlong
      exact ⟨c, rfl, hshort, hlong⟩

end Connector

end GraphMapper

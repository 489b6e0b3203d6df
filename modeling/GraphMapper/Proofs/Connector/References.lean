/-
References that are read are references that can be written.

The record of an edge refers to its two ends. So a creation with these
references makes an edge between the very same vertices (`references_relink`),
wherever the references can be read back: the ends are in the graph, and their
labels and ids are texts with something in them and no slash (`Graph.Refers`).
Nothing else is made or changed, and what else the record holds does not
matter.

A reference has no way to say anything else. It has one slash, which stands
between label and id, and an id that is looked up is a text: so the references
to other vertices are refused, or name nothing (`references_lost`). The same
goes for an edge one of whose ends is covered by a property, since two keys
that rows tell apart have the same name.

# The way of a reference

Both halves meet in the text. A row shows label and id of an end, which the
mapper joins (`Result.ofRow_edge`) and the record has under the name of the end
(`Record.toRecord_ends`). That text is taken apart by the creation
(`Reference.parse_eq_ok_iff`), and what the two parts name is the end again
(`Graph.Refers.named`).
-/
import GraphMapper.Proofs.Connector.Creation
import GraphMapper.Proofs.Connector.Rejection
import GraphMapper.Proofs.Query.Identity
import GraphMapper.Proofs.Query.References
import GraphMapper.Proofs.Query.Sorting
import GraphMapper.Proofs.Record.Ends
import GraphMapper.Proofs.Result.Edges

namespace GraphMapper

namespace Graph

open Run

variable {g g' : Graph} {h o t : Handle} {label id label' id' : String}
  {keys : List Value}

/-- A vertex of the graph that a reference can name. -/
structure Refers (g : Graph) (h : Handle) (label id : String) : Prop where
  entry : ∃ e ∈ g.vertices, e.2 = h
  named : (g.element h).IsNamed label id
  label : Reference.IsHalf label
  id : Reference.IsHalf id

/-- It is the one that its reference names. -/
theorem Refers.found (hs : Sound [] g) (hh : g.Refers h label id) :
    g.named (label, id) = some h := by
  obtain ⟨e, he, rfl⟩ := hh.entry
  have hid : (g.ids e.2).equal (.text id) = true := by
    rw [Graph.ids, hh.named.id]
    exact (Value.equal_iff_face rfl).mpr rfl
  have hmem : e ∈ g.vertices.filter fun e => (g.ids e.2).equal (.text id) :=
    List.mem_filter.mpr ⟨he, hid⟩
  rw [hs.vertices.filter_eq_find? (show (Value.text id).face? = _ from rfl),
    Option.mem_toList] at hmem
  have hlabel : (g.element e.2).label.equal (.text label) = true := by
    rw [hh.named.label]
    exact (Value.equal_iff_face rfl).mpr rfl
  unfold Graph.named
  rw [hmem, Option.map_some, Option.filter_some, if_pos hlabel]

/-- The edge stands between two vertices that references can name, and no
property covers them. -/
structure Spans (g : Graph) (k o t : Handle) : Prop where
  ends : (g.element k).ends = some ⟨o, some t⟩
  shown : (g.element k).ShowsEnds
  origin : ∃ label id, g.Refers o label id
  target : ∃ label id, g.Refers t label id

/-- There is one edge more, from one vertex to the other, with a label and an
id that is given out, and without properties. All else is as it was, but for an
edge that has had that id. -/
structure Linked (label : Value) (o t : Handle) (g g' : Graph) : Prop where
  size : g'.size = g.size + 1
  made : g'.element g.size = ⟨g.freshId.2, label, [], some ⟨o, some t⟩⟩
  others : ∀ j, j ≠ g.size → g'.element j = g.element j
  edges : g'.edges = Entries.insert g.freshId.2 g.size g.edges
  vertices : g'.vertices = g.vertices

private theorem linked_withEdge (g : Graph) (label : Value) (o t : Handle) :
    Linked label o t g (g.withEdge label o t) := by
  refine ⟨?_, ?_, fun j hj => ?_, rfl, rfl⟩
  · have hsize : (g.addEdge label o).1.size = g.size + 1 := size_add _ _
    simpa [withEdge, linkTo, Graph.size, Graph.update, Graph.indexEdge]
      using hsize
  · rw [element_withEdge, if_pos rfl]
  · rw [element_withEdge, if_neg hj]

end Graph

namespace Query

open Build

variable {m : Model} {label id label' id' : String}

/-- A record that has the references to two ends and nothing else. -/
def between (origin target : Value) : Entries :=
  [(.text "from", origin), (.text "to", target)]

/-- References that can be read make an edge, and there is nothing to write to
it. -/
private theorem create_between (hedge : m.isEdge = true) (hends : m.KeepsEnds)
    (hlabel : Reference.IsHalf label) (hid : Reference.IsHalf id)
    (hlabel' : Reference.IsHalf label') (hid' : Reference.IsHalf id') :
    traversalFrom [] (create m (.map (between (.text (label ++ "/" ++ id))
      (.text (label' ++ "/" ++ id')))))
        = .ok (edgeBetween m (label, id) (label', id')) := by
  have hdata : ((Value.map (between (.text (label ++ "/" ++ id))
      (.text (label' ++ "/" ++ id')))).toEntries >>= Record.toStorage m)
        = .ok (between (.text (label ++ "/" ++ id))
          (.text (label' ++ "/" ++ id'))) :=
    Record.toStorage_ends hends _ _
  have horigin : Reference.parse (.text (label ++ "/" ++ id)) "from"
      = .ok (label, id) :=
    Reference.parse_eq_ok_iff.mpr ⟨rfl, hlabel, hid⟩
  have htarget : Reference.parse (.text (label' ++ "/" ++ id')) "to"
      = .ok (label', id') :=
    Reference.parse_eq_ok_iff.mpr ⟨rfl, hlabel', hid'⟩
  have hfront : front m
      (between (.text (label ++ "/" ++ id)) (.text (label' ++ "/" ++ id')))
        = .ok (edgeBetween m (label, id) (label', id')) := by
    unfold front
    rw [if_pos hedge]
    show (Reference.parse (.text (label ++ "/" ++ id)) "from" >>= fun origin =>
      Reference.parse (.text (label' ++ "/" ++ id')) "to" >>= fun target =>
        Except.ok (edgeBetween m origin target)) = _
    rw [horigin, htarget]
    rfl
  have hleft : endKeys m = Reference.fields := if_pos hedge
  rw [traversalFrom_create, hdata]
  show (front m _ >>= fun made => _) = _
  rw [hfront, hleft]
  rfl

end Query

namespace Act

open GraphMapper.Filter

variable {name : String} {m : Model} {g : Graph} {k o t : Handle}
  {keys : List Value} {label id label' id' : String} {v record : Value}

-- ================================================================ all records

/-- What the mapper makes of an element. -/
def recordOf (m : Model) (g : Graph) (keys : List Value) (k : Handle) :
    Checked Value :=
  g.rowOf keys k >>= fun row => Result.ofRow m.isEdge row >>= toRecord m none

/-- If all records of a model are read, each element with its label has one,
made of its row. -/
private theorem ensures_all_whole (hname : name ≠ "") :
    Ensures (Facing name m g) (all (some name) .null .null) fun v =>
      ∃ keys records, v = .list records ∧
        List.Forall₂ (fun k r => recordOf m g keys k = .ok r) (bearers m g)
          records := by
  -- a bare request is always source, label and one read of the records
  have hquery : ∀ steps,
      Build.traversalFrom [] (Query.query m (.map [(.text "where", .map [])]))
        = .ok steps →
        ∃ keys, steps = [Filter.source m [], labelled m.label,
          .call .elementMap keys] := by
    intro steps hsteps
    have hfiltered : Build.traversalFrom []
        (Query.filtered m [(.text "where", .map [])]) = .ok steps := hsteps
    obtain ⟨order, selected, keys, skip, limit, horder, hskip, hlimit,
        hselect, rfl⟩ :=
      Query.filtered_eq_ok hfiltered
    obtain rfl : [] = order := Except.ok.inj horder
    obtain rfl : none = skip := Except.ok.inj hskip
    obtain rfl : none = limit := Except.ok.inj hlimit
    obtain rfl : [Filter.source m [], labelled m.label] = selected :=
      Except.ok.inj hselect
    exact ⟨keys, rfl⟩
  -- that read gives one row per bearer
  have hrows : ∀ {keys items}, g.evaluate
      [Filter.source m [], labelled m.label, .call .elementMap keys]
        = (.ok items, g) →
        ∃ rows, (bearers m g).mapM (g.rowOf keys) = .ok rows ∧
        items = rows.map .row := by
    intro keys items hgo
    rw [evaluate_rows] at hgo
    cases hmade : (bearers m g).mapM (g.rowOf keys) with
    | error e =>
        rw [hmade] at hgo
        cases (Prod.mk.inj hgo).1
    | ok rows =>
        rw [hmade] at hgo
        exact ⟨rows, rfl, (Except.ok.inj (Prod.mk.inj hgo).1).symm⟩
  have hwhole : (if Value.null.isGiven then .null
      else .map [(.text "where", .map [])])
        = Value.map [(.text "where", .map [])] := rfl
  have hgives : ∀ steps,
      Build.traversalFrom [] (Query.query m (.map [(.text "where", .map [])]))
        = .ok steps →
        Graph.readsOnly steps = true ∧
          ∀ items, g.evaluate steps = (.ok items, g) → ∃ rows : List Entries,
          items = rows.map .row := by
    intro steps hsteps
    obtain ⟨keys, rfl⟩ := hquery steps hsteps
    refine ⟨?_, fun items hgo => ?_⟩
    · unfold Filter.source
      cases m.isEdge <;> rfl
    · obtain ⟨rows, -, hitems⟩ := hrows hgo
      exact ⟨rows, hitems⟩
  intro c hc
  obtain ⟨hafter, hyields⟩ := ensures_all hname hwhole hgives c hc
  refine ⟨hafter, fun v hv => ?_⟩
  obtain ⟨steps, rows, fields, records, hsteps, hgo, hfields, hrecords, rfl⟩ :=
    hyields v hv
  obtain ⟨keys, rfl⟩ := hquery steps hsteps
  obtain ⟨found, hmade, hfound⟩ := hrows hgo
  obtain rfl : rows = found := Graph.rows_inj hfound
  obtain rfl : none = fields := Except.ok.inj hfields
  exact ⟨keys, records, rfl, forall₂_of_mapM (mapM_mapM hmade hrecords)⟩

/-- The record of an edge refers to both of its ends. -/
private theorem recordOf_edge (hedge : m.isEdge = true) (hkeeps : m.KeepsEnds)
    (hends : (g.element k).ends = some ⟨o, some t⟩)
    (hprops : (g.element k).ShowsEnds)
    (ho : (g.element o).IsNamed label id)
    (ht : (g.element t).IsNamed label' id')
    (hrecord : recordOf m g keys k = .ok record) :
    ∃ es, record = .map es ∧
      Entries.lookup? (.text "from") es = some (.text (label ++ "/" ++ id)) ∧
      Entries.lookup? (.text "to") es
        = some (.text (label' ++ "/" ++ id')) := by
  obtain ⟨row, hrow, hin, hout⟩ : ∃ row, g.row keys (g.element k) = .ok row ∧
      Graph.Shows row .inward (g.element t) ∧
      Graph.Shows row .outward (g.element o) :=
    Graph.row_edge hends hprops
  obtain ⟨es, hitem, hfrom, hto⟩ := Result.ofRow_edge ho ht hin hout
  have hmade : toRecord m none (.map es) = .ok record := by
    have hgo : (g.row keys (g.element k) >>= fun row =>
        Result.ofRow m.isEdge row >>= toRecord m none) = .ok record := hrecord
    rw [hrow, hedge] at hgo
    have hnext : (Result.ofRow true row >>= toRecord m none) = .ok record :=
      hgo
    rw [hitem] at hnext
    exact hnext
  exact Record.toRecord_ends hkeeps hedge hfrom hto hmade

-- ================================================================== creations

/-- The creation of an edge between what a record refers to. -/
def relink (model : Option String) (record : Entries) : Act Value :=
  create model
    (.map (Query.between (Entries.field "from" record)
      (Entries.field "to" record))) .null

/-- The new edge as results hold it. -/
private theorem elementValue_linked (hs : Graph.Sound [] g)
    (ho : g.Refers o label id) (ht : g.Refers t label' id') :
    (g.withEdge m.label o t).elementValue
      ((g.withEdge m.label o t).element g.size)
        = .ok (.edge g.freshId.2 m.label (.text id) (.text label) (.text id')
          (.text label')) := by
  have hlinked := Graph.linked_withEdge g m.label o t
  have hold : ∀ {h label id}, g.Refers h label id →
      (g.withEdge m.label o t).element h = g.element h := by
    intro h label id hh
    obtain ⟨e, he, rfl⟩ := hh.entry
    exact hlinked.others _ (Nat.ne_of_lt (hs.vertex e he).1)
  rw [hlinked.made]
  show Except.ok
    (Value.edge g.freshId.2 m.label ((g.withEdge m.label o t).element o).id
      ((g.withEdge m.label o t).element o).label
        ((g.withEdge m.label o t).element t).id
    ((g.withEdge m.label o t).element t).label) = _
  rw [hold ho, hold ht, ho.named.id, ho.named.label, ht.named.id,
    ht.named.label]

/-- It can be presented, and has its id there. -/
private theorem present_linked (hedge : m.isEdge = true) (given : Value)
    (label id label' id' : String) :
    ∃ es, Options.standard.finish (some m) .next
        (.edge given m.label (.text id) (.text label) (.text id')
          (.text label')) = .ok (.map es) ∧
      Entries.field "id" es = Result.normalize given := by
  let shown : Entries :=
    [(.text "id", Result.normalize given), (.text "label", m.label),
      (.text "OUT", Result.elementMap (.text id) (.text label)),
    (.text "IN", Result.elementMap (.text id') (.text label'))]
  have hout : Entries.lookup? (.text "OUT") shown
      = some (Result.elementMap (.text id) (.text label)) := rfl
  have hin : Entries.lookup? (.text "IN") shown
      = some (Result.elementMap (.text id') (.text label')) := rfl
  obtain ⟨es, hes, -, -⟩ := Result.collapseEdge_named hout hin
  refine ⟨es, ?_, Result.id_collapseEdge hes⟩
  show (if m.isEdge then Result.collapseEdge shown >>= fun more =>
    Except.ok (Value.map more)
    else .ok (.map shown)) = _
  rw [if_pos hedge, hes]
  rfl

/-- A reference to each of two vertices makes an edge between them. -/
private theorem does_create_between (hname : name ≠ "")
    (hedge : m.isEdge = true)
    (hkeeps : m.KeepsEnds) (hs : Graph.Sound [] g) (ho : g.Refers o label id)
    (ht : g.Refers t label' id') :
    Does name m g
      (create (some name)
        (.map (Query.between (.text (label ++ "/" ++ id))
          (.text (label' ++ "/" ++ id')))) .null) g.freshId.2
            (g.withEdge m.label o t) := by
  have hsteps :=
    Query.create_between hedge hkeeps ho.label ho.id ht.label ht.id
  -- both references are found in the graph, so the edge is written between
  -- them
  have hgo : g.evaluate (Query.edgeBetween m (label, id) (label', id'))
      = (.ok [.element g.size], g.withEdge m.label o t) := by
    have hrun : (Graph.run .plain
        (Query.edgeBetween m (label, id) (label', id') ++ []) [.start]).on g
          = _ := Graph.on_edgeBetween hs (ho.found hs) []
    rw [ht.found hs, List.append_nil] at hrun
    exact hrun
  have hraw : Server.complete (g.withEdge m.label o t) .next [.element g.size]
      = .ok (.edge g.freshId.2 m.label (.text id) (.text label) (.text id')
        (.text label')) :=
    elementValue_linked hs ho ht
  obtain ⟨es, hfinish, hid⟩ :=
    present_linked (m := m) hedge g.freshId.2 label id label' id'
  have hmutate :
      Does name m g
        (mutate (some name)
          (Query.create
            · (.map (Query.between (.text (label ++ "/" ++ id))
              (.text (label' ++ "/" ++ id'))))) .standard .next) (.map es)
      (g.withEdge m.label o t) := by
    rw [mutate_alone rfl]
    exact (does_build hsteps).bind (does_execute hname rfl hgo hraw hfinish)
  rw [create_eq_createdId]
  exact does_changing (k := fun _ v => pure (createdId v)) rfl hmutate
    (congrArg pure hid) "create"

-- ==================================================================== main

/-- What the record of an edge refers to can be linked again.

The server has no answer prepared and no failure, and the graph can be any that
there can be. All records of the model are read, one for each edge with its
label, in the order in which these are stored. If an edge stands between
vertices that references can name, then a creation with the two references of
its record, and nothing else, succeeds: there is one edge more, with the label
of the model, which starts and ends where that edge does, and the answer is its
id. No other element has changed. -/
theorem references_relink (hname : name ≠ "") (hedge : m.isEdge = true)
    (hkeeps : m.KeepsEnds) (hg : g.Reachable) {c c' : Connector}
    (hc : Ready name m g c)
    (hall : all (some name) .null .null c = (.ok v, c')) :
    ∃ records, v = .list records ∧ Ready name m g c' ∧
      List.Forall₂ (fun k record =>
      ∀ o t, g.Spans k o t → ∃ es c'', record = .map es ∧
        relink (some name) es c' = (.ok g.freshId.2, c'') ∧
        Graph.Linked m.label o t g c''.server.graph) (bearers m g)
          records := by
  obtain ⟨hfacing, hyields⟩ := ensures_all_whole hname c hc.toFacing
  obtain ⟨used, hused, -⟩ := rejectsOnly_all (some name) .null .null (c := c)
  rw [hall] at hfacing hyields hused
  have hc' : Ready name m g c' := by
    rw [hc.failures] at hused
    exact ⟨hfacing, (List.append_eq_nil_iff.mp hused.symm).2⟩
  obtain ⟨keys, records, rfl, hrecords⟩ := hyields v rfl
  refine ⟨records, rfl, hc',
    hrecords.imp fun k record hrecord o t hspans => ?_⟩
  obtain ⟨label, id, ho⟩ := hspans.origin
  obtain ⟨label', id', ht⟩ := hspans.target
  obtain ⟨es, rfl, hfrom, hto⟩ :=
    recordOf_edge hedge hkeeps hspans.ends hspans.shown ho.named
      ht.named hrecord
  obtain ⟨c'', hgo, hc''⟩ :=
    does_create_between hname hedge hkeeps hg.sound ho ht c' hc'
  refine ⟨es, c'', rfl, ?_, ?_⟩
  · unfold relink Entries.field Entries.get
    rw [hfrom, hto]
    exact hgo
  · rw [hc''.graph]
    exact Graph.linked_withEdge g m.label o t

/-- The first person knows the second. -/
def friendGraph : Graph :=
  { Filter.sampleGraph with
    elements := Filter.sampleGraph.elements ++
      [⟨.text "k1", .text "Knows", [(.text "since", .int 2019)],
        some ⟨0, some 1⟩⟩]
    edges := [(.text "k1", 3)] }

theorem friendGraph_reachable : friendGraph.Reachable := by
  have henter : Filter.sampleGraph.enterEdge (.text "k1") (.text "Knows")
      (.text "p1") (.text "p2") [(.text "since", .int 2019)]
        = .ok friendGraph := rfl
  exact .enterEdge Filter.sampleGraph_reachable rfl (by decide) henter

/-- They come to know each other once more. -/
theorem references_relink_friend : ∃ es c' c'',
    all (some "Knows") .null .null
        { friendConnector with server := .ofGraph friendGraph }
          = (.ok (.list [.map es]), c') ∧
      relink (some "Knows") es c' = (.ok (.text "1000"), c'') ∧
      Graph.Linked (.text "Knows") 0 1 friendGraph c''.server.graph := by
  have hkeeps : friendModel.KeepsEnds := ⟨by decide, by decide⟩
  have hspans : friendGraph.Spans 3 0 1 := by
    refine ⟨rfl, ?_, ⟨"Person", "p1", ?_⟩, "Person", "p2", ?_⟩
    · exact fun _ _ => List.pairwise_singleton _ _
    · exact ⟨⟨_, List.mem_cons_self, rfl⟩, ⟨rfl, rfl⟩,
        ⟨by decide, by decide⟩, by decide, by decide⟩
    · exact ⟨⟨_, List.mem_cons_of_mem _ List.mem_cons_self, rfl⟩, ⟨rfl, rfl⟩,
        ⟨by decide, by decide⟩, by decide, by decide⟩
  have hdone : (all (some "Knows") .null .null
      { friendConnector with server := .ofGraph friendGraph }).1.isOk
        = true := by
    decide +kernel
  obtain ⟨v, c', hall⟩ := exists_ok_of_isOk hdone
  obtain ⟨records, rfl, -, hrecords⟩ :=
    references_relink (show "Knows" ≠ "" by decide) rfl hkeeps
      friendGraph_reachable ⟨⟨rfl, rfl, rfl⟩, rfl⟩ hall
  rw [show bearers friendModel friendGraph = [3] from rfl] at hrecords
  match records, hrecords with
  | [record], .cons hrecord .nil =>
    obtain ⟨es, c'', rfl, hgo, hlinked⟩ := hrecord 0 1 hspans
    exact ⟨es, c', c'', hall, hgo, hlinked⟩

-- ============================================================ lost references

/-- Edges with these fields. -/
def strayModel (fields : List Field) : Model :=
  { friendModel with fields := fields }

/-- A person, another vertex, and an edge from the one to the other. -/
def strayGraph (label id : Value) (props : Entries) : Checked Graph :=
  ((Graph.empty.addVertex (.text "Person") (.text "p1") []).1.addVertex label
    id []).1.enterEdge (.text "k1") (.text "Knows") (.text "p1") id props

/-- A connector to a server with a graph of this kind. -/
def strayConnector (fields : List Field) (g : Graph) : Connector :=
  { sampleConnector with
    registry := Registry.empty.register (strayModel fields)
    server := .ofGraph g }

/-- The record of that edge is read, but its references do not make an edge. -/
def Lost (fields : List Field) (label id : Value) (props : Entries) : Prop :=
  ∃ g es c', strayGraph label id props = .ok g ∧ g.Reachable ∧
    all (some "Knows") .null .null (strayConnector fields g)
      = (.ok (.list [.map es]), c') ∧
    (relink (some "Knows") es c').1.isOk = false

/-- Whether it is so. -/
def losesReference (fields : List Field) (label id : Value)
    (props : Entries) : Bool :=
  match strayGraph label id props with
  | .error _ => false
  | .ok g =>
    match all (some "Knows") .null .null (strayConnector fields g) with
    | (.ok (.list [.map es]), c') => !(relink (some "Knows") es c').1.isOk
    | _ => false

private theorem lost_of_loses {fields : List Field} {label id : Value}
    {props : Entries} (hproper : id.isProper = true) (hkey : id.isKey = true)
    (hprops : Entries.IsReflexive props)
    (h : losesReference fields label id props = true) :
    Lost fields label id props := by
  unfold losesReference at h
  split at h
  · cases h
  · next g hg =>
    split at h
    · next es c' hall =>
      have hreach : g.Reachable := by
        refine .enterEdge (.addVertex (.addVertex .empty rfl rfl _ ?_) hproper
          hkey _ ?_) rfl hprops hg
        all_goals exact Entries.isReflexive_nil
      exact ⟨g, es, c', hg, hreach, hall, by simpa using h⟩
    · cases h

/-- What is lost: an id with a slash, an empty id, one that is no text, a label
with a slash, the end that a property covers, and the one for which a column is
kept. -/
theorem references_lost :
    Lost [] (.text "Person") (.text "a/b") [] ∧
      Lost [] (.text "Person") (.text "") [] ∧
      Lost [] (.text "Person") (.int 7) [] ∧
      Lost [] (.text "A/B") (.text "t") [] ∧
      Lost [] (.text "Person") (.text "p2")
        [(.symbol (.direction .inward), .text "x"), (.text "IN", .text "y")] ∧
      Lost [⟨.text "from", .string, .text "source"⟩] (.text "Person")
          (.text "p2") [] := by
  refine ⟨lost_of_loses ?_ ?_ ?_ ?_, lost_of_loses ?_ ?_ ?_ ?_,
    lost_of_loses ?_ ?_ ?_ ?_, lost_of_loses ?_ ?_ ?_ ?_,
    lost_of_loses ?_ ?_ ?_ ?_, lost_of_loses ?_ ?_ ?_ ?_⟩
  all_goals decide +kernel

end Act

end GraphMapper

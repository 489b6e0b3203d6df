/-
A destruction removes what its filter finds, and nothing that it does not find.

The elements are counted by one submission and dropped by another, and nothing
comes in between, so both find the same ones. They are dropped with the edges
that touch them, if they are vertices, and all else stays (`Filter.Removed`).
If there are none, there is no second submission. What is submitted is followed
along with what is done (`Act.Submitting`): no submission fails here, so none
is repeated.

Main statement: `destroy_removes_found`.

Chain: `Filter.Removal` for what is left, `Connector.Reads` for the count,
`Connector.Changes` for submissions.
-/
import GraphMapper.Proofs.Connector.Changes
import GraphMapper.Proofs.Connector.Reads
import GraphMapper.Proofs.Connector.References
import GraphMapper.Proofs.Filter.Removal

namespace GraphMapper

namespace Act

open GraphMapper.Filter

variable {α β : Type} {name : String} {m : Model} {g g' : Graph}
  {made more : List (Mode × List Step)} {steps selected : List Step}
  {mode : Mode} {o : Options} {filter options : Value}

-- ============================================================== submissions

/-- The act makes these submissions, one after the other, and no others. -/
def Submitting (name : String) (m : Model) (g : Graph) (act : Act α)
    (made : List (Mode × List Step)) : Prop :=
  ∀ c, Ready name m g c → (act c).2.submitted = c.submitted ++ made

theorem Still.submitting {act : Act α} (h : Still act) :
    Submitting name m g act [] := by
  intro c _
  rw [h c, List.append_nil]

theorem Submitting.bind {first : Act α} {k : α → Act β} {a : α}
    (hmade : Submitting name m g first made)
    (hfirst : Does name m g first a g')
    (hmore : Submitting name m g' (k a) more) :
    Submitting name m g (first >>= k) (made ++ more) := by
  intro c hc
  obtain ⟨c', hgo, hc'⟩ := hfirst c hc
  have hbefore := hmade c hc
  rw [hgo] at hbefore
  rw [bind_apply_ok hgo, hmore c' hc', hbefore, List.append_assoc]

/-- An observation is no submission. -/
theorem Submitting.observed {act : Act α} (h : Submitting name m g act made)
    (operation : String) (model : Option String) :
    Submitting name m g (observed operation model act) made := by
  intro c hc
  rw [← h c hc]
  rcases observed_snd operation model act c with hsame | ⟨ok, code, hnoted⟩
  · rw [hsame]
  · rw [hnoted]
    unfold Connector.submitted Connector.note
    rw [List.filterMap_append]
    exact List.append_nil _

/-- A traversal that runs is submitted once. -/
private theorem submitting_execute (hname : name ≠ "") {items : List Item}
    {raw : Value} (ho : o.joined = none)
    (hgo : g.evaluate steps = (.ok items, g'))
    (hraw : Server.complete g' mode items = .ok raw) :
    Submitting name m g (execute (some name) steps o mode)
      [(mode, steps)] := by
  have hsubmit : Submitting name m g
      (run (Connector.host.submitAgain m steps mode m.retry.attempts))
        [(mode, steps)] := by
    intro c hc
    have hserver : (Connector.host.submit steps mode c).1 = .ok raw := by
      show (c.server.submit steps mode).1 = .ok raw
      unfold Server.submit
      rw [hc.failures, hc.replies]
      simp only [Server.evaluate, hc.graph, hgo, hraw]
    rcases Connector.host.submitAgain_cases m steps mode
        m.retry.attempts c with
      ⟨v, c', hfirst, hend⟩ | ⟨e, c', hfirst, -⟩
    · unfold run
      rw [hend, ← hfirst]
      exact submitted_submit c
    · rw [hfirst] at hserver
      cases hserver
  have hfound : Does name m g (modelFor (some name)) (some m) g := by
    rw [modelFor_named hname]
    exact does_model.bind (does_pure (some m))
  rw [execute_alone ho]
  refine (still_modelFor _).submitting.bind hfound ?_
  exact hsubmit.bind (does_submit hgo hraw m.retry.attempts)
    (still_check _).submitting

/-- A build is no submission. -/
theorem Submitting.build {operation : Model → Build Unit}
    {k : List Step → Act β}
    (hsteps : Build.traversalFrom [] (operation m) = .ok steps)
    (hk : Submitting name m g (k steps) made) :
    Submitting name m g (build (some name) (pure []) operation >>= k) made :=
  (still_build (still_pure []) _ _).submitting.bind (does_build hsteps) hk

-- ============================================================== destructions

private theorem submitting_count (hname : name ≠ "") {n : Nat}
    (hselect : Filter.select m filter = .ok selected)
    (hgo : g.evaluate (selected ++ [.call .count []]) = (.ok [.number n], g)) :
    Submitting name m g (count (some name) filter)
      [(.next, selected ++ [.call .count []])] := by
  have hsteps : Build.traversalFrom [] (Query.count m filter)
      = .ok (selected ++ [.call .count []]) := by
    rw [Query.traversalFrom_count, hselect]
    rfl
  refine Submitting.observed (.build hsteps ?_) _ _
  exact (submitting_execute hname rfl hgo rfl).bind
    (does_execute hname rfl hgo rfl rfl) (still_check _).submitting

/-- What a destruction submits, if so many elements are counted. -/
def destroying (selected : List Step) (n : Nat) : List (Mode × List Step) :=
  if n = 0 then [(.next, selected ++ [.call .count []])]
  else [(.next, selected ++ [.call .count []]),
    (.iterate, selected ++ [.call .drop []])]

/-- A destruction that has counted does the rest, unless it has counted
nothing. -/
private theorem does_destroyAll (hname : name ≠ "")
    (ho : Options.ofValue options = .ok o) (halone : o.joined = none) {n : Nat}
    (hselect : Filter.select m filter = .ok selected)
    (hcount : g.evaluate (selected ++ [.call .count []])
      = (.ok [.number n], g))
    (hdrop : g.evaluate (selected ++ [.call .drop []]) = (.ok [], g'))
    (hnone : n = 0 → g' = g) :
    Does name m g (destroyAll (some name) filter options) (counted (.int n))
      g' ∧ Submitting name m g (destroyAll (some name) filter options)
        (destroying selected n) := by
  have hsteps : Build.traversalFrom [] (Query.drop m filter)
      = .ok (selected ++ [.call .drop []]) := by
    unfold Query.drop
    rw [Query.traversalFrom_select_bind, hselect]
    rfl
  have hcounted := does_count_selected hname hselect hcount
  have hmade := submitting_count hname hselect hcount
  rw [destroyAll_eq]
  -- nothing counted returns before the drop is built
  cases n with
  | zero =>
      obtain rfl := hnone rfl
      refine ⟨(does_check ho).bind (hcounted.bind (does_pure _)), ?_⟩
      exact (still_check _).submitting.bind (does_check ho)
        (hmade.bind hcounted (still_pure _).submitting)
  | succ n =>
      have hdone : Does name m g
          (mutate (some name) (Query.drop · filter) o .iterate) .null g' :=
        does_mutate_iterate hname halone hsteps hdrop
      have hdropped : Submitting name m g
          (mutate (some name) (Query.drop · filter) o .iterate)
            [(.iterate, selected ++ [.call .drop []])] := by
        rw [mutate_alone halone]
        exact .build hsteps (submitting_execute hname halone hdrop rfl)
      have hsome : ¬((n + 1 : Nat) : Int) = 0 := by omega
      refine ⟨(does_check ho).bind (hcounted.bind ?_), ?_⟩
      · rw [if_neg hsome]
        refine Does.observed (hdone.bind ?_) _ _
        exact does_pure _
      · refine (still_check _).submitting.bind (does_check ho)
          (hmade.bind hcounted ?_)
        rw [if_neg hsome]
        refine Submitting.observed (hdropped.bind hdone ?_) _ _
        exact (still_pure _).submitting

-- ==================================================================== main

/-- A destruction with a filter that is accepted goes through, and removes what
its filter finds, and with vertices the edges that touch one of them; all else
keeps its properties and its place. If the ends of the edges were in the graph,
they still are. The number it gives back is that of the elements removed, and a
count with the same filter then gives none. There is no drop if there was
nothing to be dropped. What a filter finds are the elements that it asks for,
and these are the ones that meet it, unless it asks for one id that is not even
equal to itself. -/
theorem destroy_removes_found (hname : name ≠ "")
    (hcolumns : hasKeyColumns m = true) {f : Face}
    (hface : m.idField.face? = some f) (hg : g.Reachable)
    (hfilter : filter.isProper = true) {cs : List Condition}
    (hparse : Filter.parse m.conditionKey filter = .ok cs)
    (ho : Options.ofValue options = .ok o) (halone : o.joined = none)
    {c : Connector} (hc : Ready name m g c) :
    let hs := found m filter g
    ∃ selected g' c₁ c₂, Filter.select m filter = .ok selected ∧
      destroyAll (some name) filter options c
        = (.ok (counted (.int hs.length)), c₁) ∧
      Ready name m g' c₁ ∧ Removed m hs g g' ∧ (g.Closed → g'.Closed) ∧
      c₁.submitted = c.submitted ++ destroying selected hs.length ∧
      count (some name) filter c₁ = (.ok 0, c₂) ∧
      (∀ h, h ∈ hs ↔ (∃ e ∈ stored m g, e.2 = h) ∧
        asksFor m filter (g.element h) = true) ∧
      ((∀ v, soughtId? m.idField filter = .ok (some v) → v.equal v = true) →
        hs = matching m filter g) := by
  intro hs
  have hkey := Value.isKey_of_face hface
  have hself : m.idField.equal m.idField = true :=
    (Value.equal_iff_face hface).mpr hface
  -- the same selection is evaluated three times: counted, dropped, counted
  -- again
  obtain ⟨selected, hselect, hgo⟩ :=
    evaluate_found hcolumns hkey hfilter hparse g
  obtain ⟨hdrop, hremoved, hempty⟩ :=
    evaluate_drop_found hg.sound hfilter hparse hgo
  obtain ⟨again, hagain, hgone⟩ :=
    evaluate_found hcolumns hkey hfilter hparse (hs.foldl Graph.dropElement g)
  obtain rfl : selected = again := Except.ok.inj (hselect.symm.trans hagain)
  -- after the drop the selection finds nothing
  rw [hempty] at hgone
  have hcounted := Graph.evaluate_number hgo
  rw [List.length_map] at hcounted
  have hnone : hs.length = 0 → hs.foldl Graph.dropElement g = g := by
    intro hlength
    rw [List.length_eq_zero_iff.mp hlength]
    rfl
  obtain ⟨hdoes, hmade⟩ :=
    does_destroyAll hname ho halone hselect hcounted hdrop hnone
  obtain ⟨c₁, hrun, hc₁⟩ := hdoes c hc
  obtain ⟨c₂, hcount, -⟩ :=
    does_count_selected hname hselect (Graph.evaluate_number hgone) c₁ hc₁
  have hsubmitted := hmade c hc
  rw [hrun] at hsubmitted
  exact ⟨selected, _, c₁, c₂, hselect, hrun, hc₁, hremoved, hremoved.closed,
    hsubmitted, hcount, fun h => mem_found_iff hg.sound hfilter hparse,
    found_eq_matching hg hkey hself hfilter hparse⟩

/-- The first of the friends leaves with the edge to the second, who stays. -/
theorem destroy_removes_found_friend : ∃ c₁ c₂,
    destroyAll (some "Person") sampleFilter .null
        { sampleConnector with server := .ofGraph friendGraph }
          = (.ok (counted (.int 1)), c₁) ∧
      c₁.server.graph.vertices = [(.text "p2", 1), (.text "p3", 2)] ∧
      c₁.server.graph.edges = [] ∧
      c₁.server.graph.element 1 = friendGraph.element 1 ∧
      count (some "Person") sampleFilter c₁ = (.ok 0, c₂) := by
  have hfound : found sampleModel sampleFilter friendGraph = [0] := by
    decide +kernel
  have haccepted : (parse sampleModel.conditionKey sampleFilter).isOk
      = true := by decide +kernel
  obtain ⟨cs, hparse⟩ := exists_of_isOk haccepted
  obtain ⟨selected, g', c₁, c₂, -, hdestroy, hready, hremoved, -, -,
      hcount, -⟩ :=
    destroy_removes_found (c :=
      { sampleConnector with server := .ofGraph friendGraph }) (show "Person"
          ≠ "" by decide) (show hasKeyColumns sampleModel = true by decide)
      (show sampleModel.idField.face? = some _ from rfl) friendGraph_reachable
      (by decide +kernel) hparse (show Options.ofValue .null
          = .ok .standard from rfl) rfl
      ⟨⟨rfl, rfl, rfl⟩, rfl⟩
  rw [hfound] at hdestroy hremoved
  refine ⟨c₁, c₂, hdestroy, ?_, ?_, ?_, hcount⟩
  · rw [hready.graph]
    exact hremoved.own
  · rw [hready.graph, hremoved.edges rfl]
    decide
  · rw [hready.graph, hremoved.element]

end Act

end GraphMapper

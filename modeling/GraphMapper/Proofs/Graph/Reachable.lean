/-
Every graph that there can be is sound.

A graph is put together from elements that are known, and then changed by
traversals (`Graph.Reachable`). Any traversal may do that, also one that fails
half way, as long as its arguments are values that an application can make.

# Edges that wait

New edges are items that wait, until they enter the graph at the next step or
the one after it (`moves_startEdges`, `moves_enterEdges`). In between, their
targets are looked for, by traversals that get no waiting edge to see
(`linkBy_safe`).

Main statement: `Reachable.sound`.
-/
import GraphMapper.Proofs.Graph.Properties
import GraphMapper.Proofs.Graph.Safety

namespace GraphMapper

namespace Graph

open Run

variable {n : Nat} {waiting : List Handle} {items : List Item}

-- ============================================================ writing steps

/-- The handle of an item that fits is that of an element which exists and does
not wait. -/
private theorem safe_handle {item : Item} (hitem : Fit waiting n item) :
    Safe n waiting (Run.ask fun _ => handle item) fun m h => h < m ∧
      h ∉ waiting := by
  refine safe_ask fun g h _ hn hhandle => ?_
  cases item with
  | element k =>
      obtain ⟨hlt, hwait⟩ := hitem k rfl
      rw [← Except.ok.inj hhandle]
      exact ⟨Nat.lt_of_lt_of_le hlt hn, hwait⟩
  | _ => cases hhandle

/-- A property is written without the indexes noticing, unless it is the id. -/
private theorem safe_setProperty {key value : Value} {item : Item}
    (hvalue : value.isProper = true) (hitem : Fit waiting n item) :
    Safe n waiting (setProperty key value item) fun _ _ => True := by
  by_cases hid : key = .idKey
  · subst hid
    cases item with
    | element h =>
        obtain ⟨hlt, hwait⟩ := hitem h rfl
        intro g hs hn
        rw [on_setProperty_id]
        cases hkey : value.isKey with
        | true =>
            have hself := Value.sameKey_self hvalue hkey
            have hsound :=
              hs.index_rename hwait (Nat.lt_of_lt_of_le hlt hn) hself
            have hsize : ((g.rename h value).index value h).size = g.size := by
              rw [size_index, size_rename]
            exact ⟨hsound, Nat.le_of_eq hsize.symm, trivial⟩
        | false =>
            have hrenamed := hs.rename hwait value
            exact hrenamed.forget (List.nil_subset _)
    | _ => exact safe_fail
  · refine (safe_handle hitem).bind fun m h _ hh => ?_
    split
    · exact absurd rfl hid
    · intro g hs _
      cases hkey : key.isKey with
      | false => exact hs.forget (List.nil_subset _)
      | true =>
          exact ⟨hs.update h (fun _ => rfl) fun _ =>
            rfl, by simp [size, Graph.update], trivial⟩

private theorem safe_drop (item : Item) :
    Safe n waiting (drop item) fun _ _ => True := by
  cases item with
  | property owner key =>
      intro g hs _
      have hsound :=
        hs.update owner (f :=
          fun e => { e with props := Entries.erase key e.props })
            (fun _ => rfl) fun _ => rfl
      exact ⟨hsound, by simp [size, Graph.update], trivial⟩
  | element h =>
      intro g hs _
      have hsize : (g.dropElement h).size = g.size := by
        unfold Graph.dropElement
        simp only
        split <;> rfl
      exact ⟨hs.dropElement h, Nat.le_of_eq hsize.symm, trivial⟩
  | _ => exact safe_fail

/-- A new vertex is an element like any other. -/
private theorem safe_addVertex (label : Value) :
    Safe n waiting
      (do
        pure (Item.element (← Run.change fun g => g.addVertex label .null [])))
            fun m item => Fit waiting m item := by
  refine (safe_change (Q := fun m h => h < m ∧ h ∉ waiting) fun g hs _ =>
    ?_).bind fun m h _ hh => safe_pure fun m' hm k hk => ?_
  · obtain ⟨hsound, hsize, hnew⟩ :=
      hs.addVertex (Value.sameKey_self (v := .null) rfl rfl) label []
    refine ⟨hsound, Nat.le_of_lt (hsize ▸ Nat.lt_succ_self _), ?_⟩
    simp only [hnew, hsize]
    exact ⟨Nat.lt_succ_self _, fun hw => Nat.lt_irrefl _ (hs.waits _ hw).1⟩
  · rw [← Item.element.inj hk]
    exact ⟨Nat.lt_of_lt_of_le hh.1 hm, hh.2⟩

/-- A row is no element. -/
private theorem safe_elementMap (keys : List Value) : Safe n waiting
    (each (fun item => Run.ask fun g => do
      .ok (.row (← g.row keys (g.element (← handle item))))) items)
    fun m out => ∀ item ∈ out, Fit waiting m item := by
  refine safe_each (fun _ _ _ hm h => h.mono hm) fun m item _ _ =>
    safe_ask fun g out _ _ hrow h heq => ?_
  subst heq
  obtain ⟨k, -, hrow⟩ := bind_eq_ok hrow
  obtain ⟨es, -, hrow⟩ := bind_eq_ok hrow
  cases hrow

/-- A slice of the items has no others. -/
private theorem safe_slice {cut : Option Int → List Item → List Item}
    (bound : Value) (hcut : ∀ b, ∀ item ∈ cut b items, item ∈ items)
    (hitems : ∀ item ∈ items, Fit waiting n item) :
    Safe n waiting (do pure (cut (← Run.ask fun _ => sliceBound bound) items))
      fun m out => ∀ item ∈ out, Fit waiting m item := by
  refine (safe_ask (Q := fun _ _ => True) fun _ _ _ _ _ => trivial).bind
    fun m b hm _ => ?_
  exact safe_pure fun m' hm' item hi => (hitems item (hcut b item hi)).mono
    (Nat.le_trans hm hm')

theorem mem_of_mem_skip (b : Option Int) :
    ∀ item ∈ skip b items, item ∈ items := by
  intro item hi
  unfold skip at hi
  split at hi
  · exact List.mem_of_mem_drop hi
  · exact hi

theorem mem_of_mem_limit (b : Option Int) :
    ∀ item ∈ limit b items, item ∈ items := by
  intro item hi
  unfold limit at hi
  split at hi
  · exact List.mem_of_mem_take hi
  · exact hi

/-- A property is no element either. -/
private theorem safe_properties (keys : List Value) : Safe n waiting (do
    let found ← each (fun item => Run.ask fun g =>
      g.properties keys item) items
    pure found.flatten) fun m out => ∀ item ∈ out, Fit waiting m item := by
  have hfound : Safe n waiting
      (each (fun item => Run.ask fun g => g.properties keys item) items)
        fun _ found => ∀ own ∈ found, ∀ i ∈ own, ∀ h, i ≠ .element h := by
    refine safe_each (fun _ _ _ _ hfound => hfound) fun m item _ _ =>
      safe_ask fun g found _ _ hfound i hi h heq => ?_
    obtain ⟨k, -, hfound⟩ := bind_eq_ok hfound
    rw [← Except.ok.inj hfound] at hi
    obtain ⟨key, -, hkey⟩ := List.mem_map.mp hi
    rw [heq] at hkey
    cases hkey
  refine hfound.bind fun m found _ hall => safe_pure fun _ _ i hi h heq => ?_
  obtain ⟨own, hown, hiown⟩ := List.mem_flatten.mp hi
  exact absurd heq (hall own hown i hiown h)

/-- What is not an element fits anywhere. -/
private theorem fit_singleton {item : Item} (hitem : ∀ h, item ≠ .element h) :
    Safe n waiting (pure [item]) fun m out => ∀ i ∈ out, Fit waiting m i := by
  refine safe_pure fun _ _ i hi h heq => ?_
  rw [List.mem_singleton.mp hi] at heq
  exact absurd heq (hitem h)

/-- What every step does that needs neither its neighbours nor other
traversals. -/
private theorem safe_perform {name : StepName} {args : List Value}
    (hargs : Value.areProper args = true)
    (hitems : ∀ item ∈ items, Fit waiting n item) :
    Safe n waiting (perform name args items) fun m out => ∀ item ∈ out,
      Fit waiting m item := by
  unfold perform
  split
  · exact safe_source (fun _ hs => hs.vertex_fits) _
  · exact safe_source (fun _ hs => hs.edge_fits) _
  · exact safe_keep_fit hitems fun _ _ _ _ => safe_ask fun _ _ _ _ _ => trivial
  · exact safe_keep_fit hitems fun _ _ _ _ => safe_ask fun _ _ _ _ _ => trivial
  · exact safe_pure fun m hm item hi => (hitems item hi).mono hm
  · exact safe_elementMap _
  · exact safe_slice _ mem_of_mem_skip hitems
  · exact safe_slice _ mem_of_mem_limit hitems
  · exact fit_singleton fun _ => Item.noConfusion
  · exact fit_singleton fun _ => Item.noConfusion
  · exact (safe_each_unit fun _ item _ _ => safe_drop item).bind fun _ _ _ _ =>
      safe_pure fun _ _ _ hi => (nomatch hi)
  · exact safe_each (fun _ _ _ hm h => h.mono hm) fun _ _ _ _ =>
      safe_addVertex _
  · simp only [Value.areProper, Bool.and_eq_true] at hargs
    refine (safe_each_unit fun m item hm hi =>
      safe_setProperty hargs.2.1 ((hitems item hi).mono hm)).bind
        fun m _ hm _ => ?_
    exact safe_pure fun m' hm' item hi =>
      (hitems item hi).mono (Nat.le_trans hm hm')
  · exact safe_properties _
  all_goals exact safe_fail

-- ============================================================ edges that wait

/-- An edge that starts at a vertex has the next handle and waits; one that
starts elsewhere is refused. -/
private theorem on_startEdge (args : List Value) {g : Graph} {item : Item}
    (hs : Sound waiting g) (hn : n ≤ g.size) (hitem : Fit waiting n item) :
    (∃ e, (startEdge args item).on g = (.error e, g)) ∨
      ∃ g', (startEdge args item).on g = (.ok (.element g.size), g') ∧
        Sound (g.size :: waiting) g' ∧ g'.size = g.size + 1 := by
  cases args with
  | nil => exact .inl ⟨_, rfl⟩
  | cons label more =>
      cases item with
      | element h =>
          cases hkind : (g.element h).isEdge with
          | true =>
              refine .inl ⟨.refusal "addE() requires a vertex traverser", ?_⟩
              simp [startEdge, on_bind, hkind]
          | false =>
              obtain ⟨hsound, hsize, hnew⟩ :=
                hs.addEdge label (Nat.lt_of_lt_of_le (hitem h rfl).1 hn) hkind
              rw [hnew] at hsound
              refine .inr ⟨_, ?_, hsound, hsize⟩
              rw [← hnew]
              simp only [startEdge, on_bind, on_change, hkind]
              rfl
      | _ => exact .inl ⟨_, rfl⟩

/-- What goes on with new edges does so while they wait. -/
theorem moves_startEdges {β : Type} {args : List Value} {k : List Item → Run β}
    {after : List Handle} {Q : Nat → β → Prop}
    (hitems : ∀ item ∈ items, Fit waiting n item)
    (hk : ∀ m hs, n ≤ m → hs.Nodup → (∀ h ∈ hs, h ∉ waiting) →
      Moves m (hs ++ waiting) after (k (hs.map .element)) Q) :
    Moves n waiting after (each (startEdge args) items >>= k) Q := by
  -- on the origins: each starts one edge, which waits for its target
  induction items generalizing n waiting k with
  | nil =>
      intro g hs hn
      rw [each, on_bind, on_pure]
      exact hk n [] (Nat.le_refl _) List.nodup_nil
        (fun _ h => (nomatch h)) g hs hn
  | cons item items ih =>
      rw [each]
      simp only [bind_assoc, pure_bind]
      intro g hs hn
      rw [on_bind]
      rcases on_startEdge args hs hn (hitems item List.mem_cons_self) with
        ⟨e, hon⟩ | ⟨g', hon, hs', hsize⟩
      · rw [hon]
        exact hs.forget (List.nil_subset _)
      · rw [hon]
        have hrest : ∀ i ∈ items, Fit (g.size :: waiting) g'.size i := by
          intro i hi h heq
          obtain ⟨hlt, hwait⟩ := hitems i (List.mem_cons_of_mem item hi) h heq
          have hold : h < g.size := Nat.lt_of_lt_of_le hlt hn
          refine ⟨hsize ▸ Nat.lt_succ_of_lt hold, ?_⟩
          exact List.not_mem_cons_of_ne_of_not_mem (Nat.ne_of_lt hold) hwait
        have hgo := ih (k := fun edges => k (.element g.size :: edges)) hrest
          fun m hs₁ hm hnodup hapart => ?_
        · exact hgo.grown hs' (Nat.le_refl _) (by omega)
        · -- the first edge joins the others
          have hfirst : g.size ∉ waiting :=
            fun hw => Nat.lt_irrefl _ (hs.waits _ hw).1
          have hnodup' : (g.size :: hs₁).Nodup :=
            List.nodup_cons.mpr ⟨fun hmem => hapart _ hmem List.mem_cons_self,
              hnodup⟩
          have hapart' : ∀ h ∈ g.size :: hs₁, h ∉ waiting := by
            intro h hh
            rcases List.mem_cons.mp hh with rfl | hh
            · exact hfirst
            · exact fun hw => hapart h hh (List.mem_cons_of_mem _ hw)
          refine (hk m (g.size :: hs₁) (by omega) hnodup' hapart').of_subset
            fun h hh => ?_
          simp only [List.cons_append, List.mem_cons, List.mem_append] at hh ⊢
          rcases hh with hh | hh | hh
          · exact .inr (.inl hh)
          · exact .inl hh
          · exact .inr (.inr hh)

/-- An edge that waits enters the graph, and no longer waits. -/
private theorem moves_enterEdge {h : Handle} (hout : h ∉ waiting) :
    Moves n (h :: waiting) waiting (do
    let h ← Run.ask fun _ => handle (.element h)
    modify fun g => g.indexEdge (g.element h).id h) fun m _ => h < m := by
  intro g hs _
  obtain ⟨hlt, hkind, hself, hnew⟩ := hs.waits h List.mem_cons_self
  have hentered :=
    hs.indexEdge hlt hkind hself hnew (List.subset_cons_self _ _) hout
  exact ⟨hentered, Nat.le_refl _, hlt⟩

/-- Edges that wait enter the graph, and then fit like any other. -/
theorem moves_enterEdges {hs : List Handle} (hnodup : hs.Nodup)
    (hapart : ∀ h ∈ hs, h ∉ waiting) :
    Moves n (hs ++ waiting) waiting (enterEdges (hs.map .element)) fun m _ =>
      ∀ item ∈ hs.map Item.element, Fit waiting m item := by
  have hentered : Moves n (hs ++ waiting) waiting (each (fun edge => do
      let h ← Run.ask fun _ => handle edge
      modify fun g => g.indexEdge (g.element h).id h)
          (hs.map .element)) fun m _ =>
        ∀ h ∈ hs, h < m := by
    induction hs generalizing n with
    | nil => exact safe_pure fun _ _ _ hh => (nomatch hh)
    | cons h hs ih =>
        obtain ⟨hnew, hnodup'⟩ := List.nodup_cons.mp hnodup
        have hapart' : ∀ k ∈ hs, k ∉ waiting :=
          fun k hk => hapart k (List.mem_cons_of_mem h hk)
        have hout : h ∉ hs ++ waiting := by
          rw [List.mem_append]
          exact not_or.mpr ⟨hnew, hapart h List.mem_cons_self⟩
        refine (moves_enterEdge hout).bind fun m _ _ hlt => ?_
        refine (ih hnodup' hapart').bind fun m' _ hm hall =>
          safe_pure fun m'' hm' k hk => ?_
        rcases List.mem_cons.mp hk with rfl | hk
        · exact Nat.lt_of_lt_of_le hlt (Nat.le_trans hm hm')
        · exact Nat.lt_of_lt_of_le (hall k hk) hm'
  refine hentered.bind fun m _ _ hall =>
    safe_pure fun m' hm item hitem h heq => ?_
  obtain ⟨k, hk, rfl⟩ := List.mem_map.mp hitem
  rw [← Item.element.inj heq]
  exact ⟨Nat.lt_of_lt_of_le (hall k hk) hm, hapart k hk⟩

/-- The vertex that an edge starts at does not wait, for only edges do. -/
private theorem safe_originOf (edge : Item) :
    Safe n waiting (Run.ask fun g => g.originOf edge) fun m origin =>
      Fit waiting m origin := by
  refine safe_ask fun g origin hs _ horigin => ?_
  obtain ⟨h, -, horigin⟩ := bind_eq_ok horigin
  split at horigin
  · next ends hends =>
    obtain ⟨hlt, hkind⟩ := hs.origin h ends hends
    intro k hk
    rw [← Except.ok.inj horigin] at hk
    rw [← Item.element.inj hk]
    refine ⟨hlt, fun hw => ?_⟩
    rw [(hs.waits _ hw).2.1] at hkind
    cases hkind
  · cases horigin

/-- A target is no matter of the indexes. -/
private theorem safe_link (edge : Item) (found : List Item) :
    Safe n waiting (link edge found) fun _ _ => True := by
  cases found with
  | nil => exact safe_fail
  | cons target more =>
      refine (safe_ask (Q := fun _ _ => True) fun _ _ _ _ _ => trivial).bind
        fun m h _ _ => ?_
      intro g hs _
      refine ⟨hs.update h (fun _ => rfl) fun e =>
        ?_, by simp [size, Graph.update], trivial⟩
      cases e.ends <;> rfl

/-- New edges enter right away unless a target is looked for first. -/
private theorem safe_addEdge {args : List Value} {rest : List Step}
    {phase : Phase} (hitems : ∀ item ∈ items, Fit waiting n item)
    (hto : startsWithTo rest = false)
    (hrest : ∀ m edges, (∀ item ∈ edges, Fit waiting m item) →
      Safe m waiting (run .plain rest edges) fun m' out => ∀ item ∈ out,
      Fit waiting m' item) :
    Safe n waiting (run phase (.call .addEdge args :: rest) items) fun m out =>
      ∀ item ∈ out, Fit waiting m item := by
  simp only [run, hto, Bool.false_eq_true, if_false]
  refine moves_startEdges hitems fun m hs _ hnodup hapart => ?_
  exact (moves_enterEdges hnodup hapart).bind fun m' _ _ hfit =>
    hrest m' _ hfit

/-- New edges enter when each has got its target. -/
private theorem safe_addEdge_to {args args' : List Value} {rest : List Step}
    {phase : Phase} (hitems : ∀ item ∈ items, Fit waiting n item)
    (hlink : ∀ m hs edge, Safe m (hs ++ waiting) (linkBy args' edge) fun _ _ =>
      True)
    (hrest : ∀ m edges, (∀ item ∈ edges, Fit waiting m item) →
      Safe m waiting (run .plain rest edges) fun m' out => ∀ item ∈ out,
      Fit waiting m' item) :
    Safe n waiting (run phase (.call .addEdge args :: .call .to args' :: rest)
        items) fun m out =>
      ∀ item ∈ out, Fit waiting m item := by
  simp only [run, startsWithTo, if_true]
  refine moves_startEdges hitems fun m hs _ hnodup hapart => ?_
  refine (safe_each_unit fun m' edge _ _ => hlink m' hs edge).bind
    fun m' _ _ _ => ?_
  exact (moves_enterEdges hnodup hapart).bind fun m'' _ _ hfit =>
    hrest m'' _ hfit

-- ================================================================ whole runs

/-- A step stands where it has its ordinary meaning, not behind `addE`. -/
def Phase.isFree : Phase → Bool
  | .linking => false
  | _ => true

mutual

/-- Proper steps keep a graph sound, on items that fit. The steps behind `addE`
are looked at together with it. -/
theorem safe_run : ∀ (steps : List Step), Value.stepsAreProper steps = true →
    ∀ (phase : Phase),
    phase.isFree = true → ∀ (n : Nat) (waiting : List Handle)
      (items : List Item), (∀ item ∈ items, Fit waiting n item) →
        Safe n waiting (run phase steps items) fun m out => ∀ item ∈ out,
        Fit waiting m item
  | [], _, phase, _, n, waiting, items, hitems => by
      cases phase <;>
        exact safe_pure fun m hm item hi => (hitems item hi).mono hm
  | .call name args :: rest, h, phase, hphase, n, waiting, items, hitems => by
      simp only [Value.stepsAreProper, Bool.and_eq_true] at h
      obtain ⟨hargs, hrest⟩ := h
      have hplain : ∀ m out, (∀ item ∈ out, Fit waiting m item) →
          Safe m waiting (run .plain rest out) fun m' out => ∀ item ∈ out,
          Fit waiting m' item :=
        fun m out hout => safe_run rest hrest .plain rfl m waiting out hout
      have hstep : Safe n waiting (perform name args items >>= fun next =>
          run .plain rest next) fun m out => ∀ item ∈ out,
              Fit waiting m item :=
        (safe_perform hargs hitems).bind fun m next _ hnext =>
          hplain m next hnext
      -- the steps with children, the sorting and the edge steps are run by
      -- their own rules; any other step is performed
      cases name
      case or =>
          refine (safe_keep_fit hitems fun m item hm hi => ?_).bind
              fun m kept _ hkept =>
            hplain m kept hkept
          exact anyChild_safe args hargs m waiting item
            ((hitems item hi).mono hm)
      case and =>
          refine (safe_keep_fit hitems fun m item hm hi => ?_).bind
              fun m kept _ hkept =>
            hplain m kept hkept
          exact allChildren_safe args hargs m waiting item
            ((hitems item hi).mono hm)
      case sideEffect =>
          have hgo : Safe n waiting
              (each (fun item => allChildren args item) items >>= fun _ =>
                run .plain rest items) fun m out => ∀ item ∈ out,
                    Fit waiting m item := by
            refine (safe_each_unit fun m item hm hi => ?_).bind fun m _ hm _ =>
              hplain m items fun item hi => (hitems item hi).mono hm
            exact allChildren_safe args hargs m waiting item
              ((hitems item hi).mono hm)
          simp only [run]
          split
          · exact safe_fail
          · exact hgo
      case order =>
          refine (safe_ask (Q := fun m sorted => ∀ item ∈ sorted,
            Fit waiting m item) fun g sorted _ hn hsorted item hi =>
              ?_).bind fun m sorted _ hsorted =>
              safe_run rest hrest .sorted rfl m waiting sorted hsorted
          obtain ⟨keys, -, hsorted⟩ := bind_eq_ok hsorted
          exact (hitems item
            (mem_of_sortAll g keys items _ hsorted item hi)).mono hn
      case orderBy =>
          cases phase
          case sorted =>
              exact safe_run rest hrest .sorted rfl n waiting items hitems
          all_goals exact hstep
      case addEdge =>
          match rest, hrest, hplain with
          | [], _, hplain => exact safe_addEdge hitems rfl hplain
          | .call next args' :: rest', hrest, hplain =>
              by_cases hto : next = .to
              · subst hto
                simp only [Value.stepsAreProper, Bool.and_eq_true] at hrest
                exact safe_addEdge_to hitems
                  (fun m hs edge => linkBy_safe args' hrest.1 m (hs ++ waiting)
                    edge)
                  fun m edges hedges =>
                    safe_run rest' hrest.2 .plain rfl m waiting edges hedges
              · have hnone : startsWithTo (.call next args' :: rest')
                    = false := by
                  cases next <;> first | rfl | exact absurd rfl hto
                exact safe_addEdge hitems hnone hplain
      case «to» =>
          cases phase
          case linking => exact absurd hphase (by decide)
          all_goals exact hstep
      all_goals cases phase <;> exact hstep

theorem child_safe :
    ∀ (v : Value), v.isProper = true →
      ∀ (n : Nat) (waiting : List Handle) (item : Item), Fit waiting n item →
      Safe n waiting (child v item) fun m out => ∀ item ∈ out,
      Fit waiting m item
  | .traversal steps, h, n, waiting, item, hitem => by
      refine safe_run steps (by simpa [Value.isProper] using h) .plain rfl n
        waiting [item] ?_
      intro i hi
      rw [List.mem_singleton.mp hi]
      exact hitem
  | .null, _, _, _, _, _ | .bool _, _, _, _, _, _ | .int _, _, _, _, _, _
  | .float _, _, _, _, _, _ | .text _, _, _, _, _, _ | .bytes _, _, _, _, _, _
  | .date _, _, _, _, _, _ | .dateTime _, _, _, _, _, _
  | .list _, _, _, _, _, _ | .tuple _, _, _, _, _, _
  | .set _, _, _, _, _, _ | .map _, _, _, _, _, _ | .symbol _, _, _, _, _, _
  | .datatype _, _, _, _, _, _ | .vertex _ _, _, _, _, _, _
  | .edge .., _, _, _, _, _ | .vertexProperty .., _, _, _, _, _
  | .property .., _, _, _, _, _ | .path _, _, _, _, _, _
  | .traverser _, _, _, _, _, _ | .predicate .., _, _, _, _, _
  | .foreign _ _, _, _, _, _, _ => safe_fail

theorem anyChild_safe :
    ∀ (vs : List Value), Value.areProper vs = true →
      ∀ (n : Nat) (waiting : List Handle) (item : Item),
      Fit waiting n item → Safe n waiting (anyChild vs item) fun _ _ => True
  | [], _, _, _, _, _ => safe_pure fun _ _ => trivial
  | v :: vs, h, n, waiting, item, hitem => by
      simp only [Value.areProper, Bool.and_eq_true] at h
      refine (child_safe v h.1 n waiting item hitem).bind
        fun m found hm _ => ?_
      split
      · exact anyChild_safe vs h.2 m waiting item (hitem.mono hm)
      · exact safe_pure fun _ _ => trivial

theorem allChildren_safe :
    ∀ (vs : List Value), Value.areProper vs = true →
      ∀ (n : Nat) (waiting : List Handle) (item : Item),
      Fit waiting n item → Safe n waiting (allChildren vs item) fun _ _ => True
  | [], _, _, _, _, _ => safe_pure fun _ _ => trivial
  | v :: vs, h, n, waiting, item, hitem => by
      simp only [Value.areProper, Bool.and_eq_true] at h
      refine (child_safe v h.1 n waiting item hitem).bind
        fun m found hm _ => ?_
      split
      · exact safe_pure fun _ _ => trivial
      · exact allChildren_safe vs h.2 m waiting item (hitem.mono hm)

theorem linkBy_safe :
    ∀ (vs : List Value), Value.areProper vs = true →
      ∀ (n : Nat) (waiting : List Handle) (edge : Item),
      Safe n waiting (linkBy vs edge) fun _ _ => True
  | [], _, _, _, _ => safe_fail
  | v :: vs, h, n, waiting, edge => by
      simp only [Value.areProper, Bool.and_eq_true] at h
      refine (safe_originOf edge).bind fun m origin _ horigin => ?_
      refine (child_safe v h.1 m waiting origin horigin).bind
        fun m' found _ _ => ?_
      exact safe_link edge found

end

/-- Whatever comes of a proper traversal, the graph is sound after it. -/
theorem Sound.evaluate {g : Graph} (hs : Sound [] g) {steps : List Step}
    (h : Value.stepsAreProper steps = true) :
    Sound [] (g.evaluate steps).2 := by
  have hstart : ∀ item ∈ [Item.start], Fit [] g.size item := by
    intro item hi k hk
    rw [List.mem_singleton.mp hi] at hk
    cases hk
  have hrun := safe_run steps h .plain rfl g.size [] [.start] hstart g hs
    (Nat.le_refl _)
  show Sound [] ((run .plain steps [.start]).on g).2
  rcases hon : (run .plain steps [.start]).on g with ⟨e | out, g'⟩
  · rw [hon] at hrun
    exact hrun
  · rw [hon] at hrun
    exact hrun.1

-- =========================================================== reachable graphs

/-- The graphs that can be: put together from known elements, whose properties
are mappings with keys that find themselves, with traversals run in
between. -/
inductive Reachable : Graph → Prop where
  | empty : Reachable .empty
  | enterVertex {g g' : Graph} {id label : Value} {props : Entries}
      (hg : Reachable g) (hid : id.isProper = true)
      (hprops : Entries.IsReflexive props)
      (h : g.enterVertex id label props = .ok g') : Reachable g'
  | enterEdge {g g' : Graph} {id label originId targetId : Value}
      {props : Entries} (hg : Reachable g) (hid : id.isProper = true)
      (hprops : Entries.IsReflexive props)
      (h : g.enterEdge id label originId targetId props = .ok g') :
      Reachable g'
  | evaluate {g : Graph} {steps : List Step} (hg : Reachable g)
      (h : Value.stepsAreProper steps = true) : Reachable (g.evaluate steps).2

theorem Reachable.addVertex {g : Graph} (hg : Reachable g) {id : Value}
    (hid : id.isProper = true) (hkey : id.isKey = true) (label : Value)
    {props : Entries} (hprops : Entries.IsReflexive props) :
    Reachable (g.addVertex label id props).1 :=
  hg.enterVertex hid hprops (if_pos hkey)

/-- What is found as a vertex is one. -/
theorem Sound.vertexOf {g : Graph} (hs : Sound waiting g) {id : Value}
    {h : Handle} (hfound : g.vertexOf id = .ok h) :
    h < g.size ∧ (g.element h).isEdge = false := by
  obtain ⟨found, hfind, hfound⟩ := bind_eq_ok hfound
  split at hfound
  · next k =>
    unfold Entries.find at hfind
    split at hfind
    · obtain ⟨e, he, hek⟩ := Option.map_eq_some_iff.mp (Except.ok.inj hfind)
      rw [← Except.ok.inj hfound, ← hek]
      exact hs.vertex e (List.mem_of_find?_eq_some he)
    · cases hfind
  · cases hfound

/-- An edge with all that is known about it enters under its id. -/
private theorem Sound.addLinked {g : Graph} (hs : Sound [] g)
    {id label : Value}
    {props : Entries} {origin target : Handle} (hid : id.sameKey id = true)
    (horigin : origin < g.size ∧ (g.element origin).isEdge = false) :
    Sound []
      ((g.add ⟨id, label, props, some ⟨origin, some target⟩⟩).1.indexEdge id
        g.size) := by
  have hadded := hs.add ⟨id, label, props, some ⟨origin, some target⟩⟩
      fun ends hends => by
    rw [← Option.some.inj hends]
    exact horigin
  have hnew :=
    element_add g ⟨id, label, props, some ⟨origin, some target⟩⟩ g.size
  rw [if_pos rfl] at hnew
  have hlt : g.size
      < (g.add ⟨id, label, props, some ⟨origin, some target⟩⟩).1.size := by
    rw [size_add]
    exact Nat.lt_succ_self _
  have hentered : Sound [] _ := hadded.indexEdge hlt (by rw [hnew]; rfl)
    (by rw [ids, hnew]; exact hid) (fun e he => Nat.ne_of_lt (hs.edge e he).1)
    (.refl _) List.not_mem_nil
  rw [ids, hnew] at hentered
  exact hentered

/-- An edge between vertices may enter the graph. -/
theorem Sound.enterEdge {g g' : Graph} (hs : Sound [] g)
    {id label originId targetId : Value} {props : Entries}
    (hid : id.isProper = true)
    (h : g.enterEdge id label originId targetId props = .ok g') :
    Sound [] g' := by
  have henter : ∀ {g₁ : Graph} {own : Value},
      Sound [] g₁ → own.isProper = true → (do
      let origin ← g₁.vertexOf originId
      let target ← g₁.vertexOf targetId
      if own.isKey then
        let added := g₁.add ⟨own, label, props, some ⟨origin, some target⟩⟩
        .ok (added.1.indexEdge own added.2)
      else .error own.keyFault) = Except.ok g' → Sound [] g' := by
    intro g₁ own hs₁ hown henters
    obtain ⟨origin, horigin, henters⟩ := bind_eq_ok henters
    obtain ⟨target, -, henters⟩ := bind_eq_ok henters
    split at henters
    · next hkey =>
      rw [← Except.ok.inj henters]
      exact hs₁.addLinked (Value.sameKey_self hown hkey) (hs₁.vertexOf horigin)
    · cases henters
  unfold Graph.enterEdge at h
  cases id with
  | null => exact henter hs.freshId rfl h
  | _ => exact henter hs hid h

/-- A graph that can be is sound, and no edge waits in it. -/
theorem Reachable.sound {g : Graph} (hg : Reachable g) : Sound [] g := by
  induction hg with
  | empty => exact sound_empty
  | enterVertex hg hid hprops h ih =>
      unfold Graph.enterVertex at h
      split at h
      · next hkey =>
        obtain ⟨hsound, -, -⟩ := ih.addVertex (Value.sameKey_self hid hkey) _ _
        rw [← Except.ok.inj h]
        exact hsound
      · cases h
  | enterEdge hg hid hprops h ih => exact ih.enterEdge hid h
  | evaluate hg h ih => exact ih.evaluate h

/-- What is stored in a graph that can be is found under its key. -/
theorem Reachable.keyed {g : Graph} (hg : Reachable g) : IsKeyed g := by
  induction hg with
  | empty => exact isKeyed_empty
  | enterVertex hg hid hprops h ih =>
      unfold Graph.enterVertex at h
      split at h
      · rw [← Except.ok.inj h]
        exact ih.addVertex _ _ hprops
      · cases h
  | enterEdge hg hid hprops h ih => exact ih.enterEdge hprops h
  | evaluate hg h ih => exact ih.evaluate h

end Graph

end GraphMapper

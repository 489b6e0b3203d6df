/-
Runs that change nothing of the graph but the properties of one element.

What a run does to the graph can be told from what its parts do, by any
relation between the graph before and after that can be composed
(`Run.Within`). The relation here is that all is as it was but for the
properties of one element (`Graph.SameBut`). Writing and dropping properties of
that element is within it, whether it goes well or not, and so is a whole row
of such steps (`within_cleared`): the step that drops all properties, and then
one step for each that is written. Only the reserved key of ids is different,
since it gives the element another id.

Chain: `Graph.Running` for relations that are composed, `Graph.Properties` for
the steps that write; `Query.ById` and `Graph.Writing` use it.
-/
import GraphMapper.Proofs.Graph.Properties
import GraphMapper.Query.Builder

namespace GraphMapper

namespace Graph

open Run

variable {g g' g'' : Graph} {h : Handle} {waiting : List Handle}

-- ======================================================== all but one element

/-- Nothing but the properties of one element may differ. -/
structure SameBut (h : Handle) (g g' : Graph) : Prop where
  vertices : g'.vertices = g.vertices
  edges : g'.edges = g.edges
  size : g'.size = g.size
  others : ∀ k, k ≠ h → g'.element k = g.element k
  id : (g'.element h).id = (g.element h).id
  label : (g'.element h).label = (g.element h).label
  ends : (g'.element h).ends = (g.element h).ends

private theorem steady_sameBut (h : Handle) : Steady (SameBut h) where
  refl _ := ⟨rfl, rfl, rfl, fun _ _ => rfl, rfl, rfl, rfl⟩
  trans h₁ h₂ :=
    { vertices := h₂.vertices.trans h₁.vertices
      edges := h₂.edges.trans h₁.edges
      size := h₂.size.trans h₁.size
      others := fun k hk => (h₂.others k hk).trans (h₁.others k hk)
      id := h₂.id.trans h₁.id
      label := h₂.label.trans h₁.label
      ends := h₂.ends.trans h₁.ends }

/-- Properties are no matter of the indexes. -/
theorem SameBut.sound (hsame : SameBut h g g') (hs : Sound waiting g) :
    Sound waiting g' := by
  refine hs.shrink hsame.size (hsame.vertices ▸ .refl _)
    (hsame.edges ▸ .refl _) (fun k => ?_) fun k => ?_
  · by_cases hk : k = h
    · rw [hk, hsame.id]
    · rw [hsame.others k hk]
  · by_cases hk : k = h
    · rw [hk, hsame.ends]
    · rw [hsame.others k hk]

/-- Only properties of the element are changed. -/
theorem sameBut_update (g : Graph) (h : Handle) (f : Entries → Entries) :
    SameBut h g (g.update h fun e => { e with props := f e.props }) := by
  have hother : ∀ k, k ≠ h →
      (g.update h fun e => { e with props := f e.props }).element k
        = g.element k := by
    intro k hk
    rw [element_update, if_neg fun hboth => hk hboth.1]
  refine ⟨rfl, rfl, by simp [size, Graph.update], hother, ?_, ?_, ?_⟩ <;>
  · rw [element_update]
    split <;> rfl

-- =============================================================== single steps

/-- A property is written to the element. -/
private theorem within_setProperty {key : Value} (hkey : key ≠ .idKey)
    (value : Value) :
    Within (SameBut h) (setProperty key value (.element h)) := by
  intro g
  rw [on_setProperty hkey]
  split
  · exact sameBut_update g h _
  · exact (steady_sameBut h).refl g

/-- The properties that an element is asked for are its own. -/
private theorem properties_own {keys : List Value} {found : List Item}
    (hfound : g.properties keys (.element h) = .ok found) :
    ∀ item ∈ found, ∃ key, item = .property h key := by
  intro item hitem
  have hgo : (((Entries.keys (g.element h).props).filter fun k =>
      keys.isEmpty || k.isIn keys).map (Item.property h)) = found :=
        Except.ok.inj hfound
  rw [← hgo] at hitem
  obtain ⟨key, -, rfl⟩ := List.mem_map.mp hitem
  exact ⟨key, rfl⟩

private theorem within_drop_property (key : Value) :
    Within (SameBut h) (drop (.property h key)) := by
  intro g
  show SameBut h g
    (g.update h fun e => { e with props := Entries.erase key e.props })
  exact sameBut_update g h _

/-- What the element has under keys is dropped. -/
private theorem within_clear (keys : List Value) :
    Within (SameBut h)
      (child (.traversal [.call .properties keys, .call .drop []])
        (.element h)) := by
  have hsteady := steady_sameBut h
  have hread : Within (SameBut h)
      (each (fun item => Run.ask fun g => g.properties keys item) [.element h]
        >>= fun found =>
        (pure found.flatten : Run (List Item))) :=
    (within_each hsteady fun _ _ => within_ask hsteady _).bind hsteady fun _ =>
      within_pure hsteady _
  show Within (SameBut h) (_ >>= fun next => run .plain [.call .drop []] next)
  refine hread.bind_of hsteady fun found g g' hfound => ?_
  -- what is found is properties of the element, so that is all that is dropped
  have hown : ∀ item ∈ found, ∃ key, item = .property h key := by
    simp only [each, on_bind, on_ask] at hfound
    cases hprops : g.properties keys (.element h) with
    | error e =>
        rw [hprops] at hfound
        cases hfound
    | ok own =>
        rw [hprops] at hfound
        have hflat : found = own := by
          have heq := Except.ok.inj (Prod.mk.inj hfound).1
          rw [← heq]
          simp
        rw [hflat]
        exact properties_own hprops
  have hdrop : Within (SameBut h) (each drop found) := by
    refine within_each hsteady fun item hitem => ?_
    obtain ⟨key, rfl⟩ := hown item hitem
    exact within_drop_property key
  show Within (SameBut h)
    ((each drop found >>= fun _ => (pure [] : Run (List Item))) >>= fun next =>
      run .plain [] next)
  exact (hdrop.bind hsteady fun _ => within_pure hsteady _).bind
      hsteady fun _ =>
    within_pure hsteady _

-- ============================================================= rows of steps

/-- The step writes a property, and not the id. -/
def WritesProperty (step : Step) : Prop :=
  ∃ key value, step = .call .property [key, value] ∧ key ≠ .idKey

variable {items : List Item} {steps : List Step}

/-- A step that writes a property goes on with the items that it got. -/
theorem run_property (key value : Value) (rest : List Step)
    (items : List Item) :
    run .plain (.call .property [key, value] :: rest) items
      = (each (setProperty key value) items >>= fun _ =>
        run .plain rest items) := by
  show ((each (setProperty key value) items >>= fun _ => pure items)
      >>= fun next =>
    run .plain rest next) = _
  rw [bind_assoc]
  simp only [pure_bind]

private theorem within_writes (hitems : ∀ item ∈ items, item = .element h)
    (hsteps : ∀ step ∈ steps, WritesProperty step) :
    Within (SameBut h) (run .plain steps items) := by
  induction steps with
  | nil => exact within_pure (steady_sameBut h) _
  | cons step steps ih =>
      obtain ⟨key, value, rfl, hkey⟩ := hsteps step List.mem_cons_self
      have hrest := ih fun s hs => hsteps s (List.mem_cons_of_mem _ hs)
      have hwrite : Within (SameBut h)
          (each (setProperty key value) items) := by
        refine within_each (steady_sameBut h) fun item hitem => ?_
        rw [hitems item hitem]
        exact within_setProperty hkey value
      rw [run_property]
      exact hwrite.bind (steady_sameBut h) fun _ => hrest

/-- All properties are dropped and others are written. -/
theorem within_cleared (hitems : ∀ item ∈ items, item = .element h)
    (hsteps : ∀ step ∈ steps, WritesProperty step) :
    Within (SameBut h) (run .plain (Query.clearing [] :: steps) items) := by
  have hsteady := steady_sameBut h
  have hclear : Within (SameBut h) (each (fun item => allChildren
      [Query.child [.call .properties [], .call .drop []]] item) items) := by
    refine within_each hsteady fun item hitem => ?_
    rw [hitems item hitem]
    refine (within_clear []).bind hsteady fun found => ?_
    split <;> exact within_pure hsteady _
  exact hclear.bind hsteady fun _ => within_writes hitems hsteps

end Graph

end GraphMapper

/-
What a row of writes leaves on one element.

Dropping all properties of an element leaves it with none, if each of them is
found under its own key (`on_clearing`). Writing properties then puts them in
one after the other (`on_puts`). What is known of the properties of an element
before a row of writes, and kept by every single one of them, is known of them
afterwards (`Retains`); that goes for the row which makes an element just as
well.

# Why it is one element

Every step here works on the items that it is given, and these are one element.
So the graph is written as `g.withProps h props`: what changes is the one
mapping, and the equations say how. Where an element is cleared, the order
matters: each property is dropped by its own key, and a key that is not the
same as itself would leave its property standing (`Entries.IsReflexive`).

Chain: `Graph.Touching` for what else stays, `Graph.Reachable` for the graphs
that there are; `Graph.Creating`, `Graph.Overriding` and `Query.Saving` write
records with it.
-/
import GraphMapper.Proofs.Graph.Reachable
import GraphMapper.Proofs.Graph.Touching
import GraphMapper.Proofs.Value.Entries

namespace GraphMapper

namespace Graph

open Run

variable {g g' : Graph} {k : Handle} {es : Entries}

-- =========================================================== given properties

/-- The graph with these properties on an element. -/
def withProps (g : Graph) (k : Handle) (es : Entries) : Graph :=
  g.update k fun e => { e with props := es }

theorem sameBut_withProps (g : Graph) (k : Handle) (es : Entries) :
    SameBut k g (g.withProps k es) :=
  sameBut_update g k fun _ => es

theorem props_withProps (hk : k < g.size) (es : Entries) :
    ((g.withProps k es).element k).props = es := by
  rw [withProps, element_update, if_pos ⟨rfl, hk⟩]

/-- A change of given properties gives others. -/
private theorem update_withProps (g : Graph) (k : Handle) (es : Entries)
    (f : Entries → Entries) :
    (g.withProps k es).update k (fun e => { e with props := f e.props })
      = g.withProps k (f es) := by
  unfold withProps update
  rw [List.modify_modify_eq]
  rfl

theorem withProps_withProps (g : Graph) (k : Handle) (es more : Entries) :
    (g.withProps k es).withProps k more = g.withProps k more :=
  update_withProps g k es fun _ => more

/-- An element has its own properties. -/
theorem withProps_props (g : Graph) (k : Handle) :
    g.withProps k (g.element k).props = g := by
  have hsame : g.elements.modify k
      (fun e => { e with props := (g.element k).props }) = g.elements := by
    refine List.ext_getElem? fun i => ?_
    rw [List.getElem?_modify]
    by_cases hi : k = i
    · subst hi
      unfold element
      rw [List.getD_eq_getElem?_getD]
      cases g.elements[k]? <;> simp
    · simp [hi]
  show { g with elements := g.elements.modify k fun e =>
    { e with props := (g.element k).props } } = g
  rw [hsame]

/-- A change of an element's own properties. -/
theorem withProps_own (g : Graph) (k : Handle) (f : Entries → Entries) :
    g.withProps k (f (g.element k).props)
      = g.update k fun e => { e with props := f e.props } := by
  have hsame := update_withProps g k (g.element k).props f
  rw [withProps_props] at hsame
  exact hsame.symm

-- =============================================================== single steps

theorem on_put {key : Value} (hkey : key.isKey = true) (hid : key ≠ .idKey)
    (value : Value) :
    (setProperty key value (.element k)).on (g.withProps k es)
      = (.ok (), g.withProps k (Entries.insert key value es)) := by
  rw [on_setProperty hid, if_pos hkey,
    update_withProps g k es (Entries.insert key value)]

private theorem on_drops (g : Graph) (k : Handle) (es : Entries)
    (keys : List Value) :
    ∃ units, (each drop (keys.map (.property k))).on (g.withProps k es)
      = (.ok units,
        g.withProps k
          (keys.foldl (fun acc key => Entries.erase key acc) es)) := by
  induction keys generalizing es with
  | nil => exact ⟨[], rfl⟩
  | cons key keys ih =>
      obtain ⟨units, hunits⟩ := ih (Entries.erase key es)
      have hfirst : (drop (.property k key)).on (g.withProps k es)
          = (.ok (), g.withProps k (Entries.erase key es)) := by
        rw [← update_withProps g k es (Entries.erase key)]
        rfl
      refine ⟨() :: units, ?_⟩
      rw [List.map_cons, each, on_bind_ok hfirst, on_bind_ok hunits]
      rfl

-- ============================================================== rows of steps

/-- The step that writes an entry. -/
def put (p : Value × Value) : Step := .call .property [p.1, p.2]

theorem on_puts {puts : Entries}
    (hkeys : ∀ p ∈ puts, p.1.isKey = true ∧ p.1 ≠ .idKey) :
    (run .plain (puts.map put) [.element k]).on (g.withProps k es)
      = (.ok [.element k],
          g.withProps k
            (puts.foldl (fun acc p => Entries.insert p.1 p.2 acc) es)) := by
  induction puts generalizing es with
  | nil => rfl
  | cons p puts ih =>
      obtain ⟨hkey, hid⟩ := hkeys p List.mem_cons_self
      have hfirst : (each (setProperty p.1 p.2) [.element k]).on
          (g.withProps k es)
            = (.ok [()], g.withProps k (Entries.insert p.1 p.2 es)) := by
        rw [each, on_bind_ok (on_put hkey hid p.2)]
        rfl
      rw [List.map_cons, put, run_property, on_bind_ok hfirst]
      exact ih fun q hq => hkeys q (List.mem_cons_of_mem _ hq)

/-- Removals that have nothing to do with the first entry are made behind
it. -/
private theorem foldl_erase_behind {p : Value × Value} {keys : List Value}
    (hkeys : ∀ key ∈ keys, p.1.sameKey key = false) :
    keys.foldl (fun acc key => Entries.erase key acc) (p :: es)
      = p :: keys.foldl (fun acc key => Entries.erase key acc) es := by
  induction keys generalizing es with
  | nil => rfl
  | cons key keys ih =>
      have hfirst : Entries.erase key (p :: es)
          = p :: Entries.erase key es := by
        rw [Entries.erase_cons, hkeys key List.mem_cons_self,
          if_neg Bool.false_ne_true]
      rw [List.foldl_cons, List.foldl_cons, hfirst]
      exact ih fun other hother => hkeys other (List.mem_cons_of_mem _ hother)

/-- Once the keys with a property have been removed from a mapping, the others
are left. -/
private theorem foldl_erase_those {p : Value → Bool} (hp : Entries.Respects p)
    (hself : ∀ e ∈ es, p e.1 = true → e.1.sameKey e.1 = true) :
    ((Entries.keys es).filter p).foldl (fun acc key => Entries.erase key acc)
      es = Entries.those (fun key => !p key) es := by
  induction es with
  | nil => rfl
  | cons e es ih =>
      have hrest := ih fun d hd => hself d (List.mem_cons_of_mem _ hd)
      rw [show Entries.keys (e :: es) = e.1 :: Entries.keys es from rfl,
        List.filter_cons, Entries.those_cons]
      cases he : p e.1 with
      | true =>
          have hfirst : Entries.erase e.1 (e :: es) = es :=
            if_pos (hself e List.mem_cons_self he)
          rw [if_pos rfl, List.foldl_cons, hfirst, hrest, Bool.not_true,
            if_neg Bool.false_ne_true]
      | false =>
          rw [if_neg Bool.false_ne_true, foldl_erase_behind fun key hkey => ?_,
            hrest, Bool.not_false, if_pos rfl]
          -- a key with the property is not the same as one without it
          rw [Bool.eq_false_iff]
          intro hsame
          have hown := (List.mem_filter.mp hkey).2
          rw [← hp _ _ hsame, he] at hown
          cases hown

/-- Among properties asked for by keys there are those under a key: no keys ask
for all. -/
def covers (keys : List Value) (key : Value) : Bool :=
  keys.isEmpty || key.isIn keys

/-- The properties of an element that keys ask for are dropped. -/
theorem on_clear {keys : List Value} (hkeys : Entries.Respects (covers keys))
    (hself : ∀ e ∈ (g.element k).props, covers keys e.1 = true →
      e.1.sameKey e.1 = true) :
    (allChildren [Query.child [.call .properties keys, .call .drop []]]
      (.element k)).on g = (.ok false,
          g.withProps k (Entries.those (fun key => !covers keys key)
            (g.element k).props)) := by
  let own := (Entries.keys (g.element k).props).filter (covers keys)
  obtain ⟨units, hdrops⟩ := on_drops g k (g.element k).props own
  rw [withProps_props, foldl_erase_those hkeys hself] at hdrops
  have hown : g.properties keys (.element k) = .ok (own.map (.property k)) :=
    rfl
  have hread :
      (each (fun item => Run.ask fun g => g.properties keys item) [.element k]
        >>= fun found => (pure found.flatten : Run (List Item))).on g
          = (.ok (own.map (.property k)), g) := by
    simp [each, hown]
  have hdrop : (run .plain [.call .drop []] (own.map (.property k))).on g
      = (.ok [], g.withProps k (Entries.those (fun key => !covers keys key)
        (g.element k).props)) := by
    show ((each drop _ >>= fun _ => (pure [] : Run (List Item)))
        >>= fun next =>
      run .plain [] next).on g = _
    rw [bind_assoc, on_bind_ok hdrops]
    rfl
  have hclear : (child (.traversal [.call .properties keys, .call .drop []])
      (.element k)).on g = _ := (on_bind_ok hread).trans hdrop
  exact on_bind_ok hclear

/-- An element is cleared of all its properties before anything else is done
with it. -/
theorem on_clearing (hself : ∀ p ∈ (g.element k).props, p.1.sameKey p.1 = true)
    (rest : List Step) :
    (run .plain (Query.clearing [] :: rest) [.element k]).on g
      = (run .plain rest [.element k]).on (g.withProps k []) := by
  have hclear :
      (allChildren [Query.child [.call .properties [], .call .drop []]]
        (.element k)).on g = _ :=
          on_clear (fun _ _ _ => rfl) fun p hp _ => hself p hp
  have hnone : Entries.those (fun key => !covers [] key) (g.element k).props
      = [] :=
    List.filter_eq_nil_iff.mpr fun _ _ => Bool.false_ne_true
  rw [hnone] at hclear
  have heach : (each (fun item => allChildren
      [Query.child [.call .properties [], .call .drop []]] item)
        [.element k]).on g
        = (.ok [false], g.withProps k []) := by
    rw [each, on_bind_ok hclear]
    rfl
  exact on_bind_ok heach

/-- A row of writes goes on with what it has got. -/
theorem items_of_writes {steps : List Step} {items out : List Item}
    (hsteps : ∀ step ∈ steps, ∃ key value, step = .call .property [key, value])
    (hgo : (run .plain steps items).on g = (.ok out, g')) : out = items := by
  induction steps generalizing g with
  | nil => exact (Except.ok.inj (Prod.mk.inj hgo).1).symm
  | cons step steps ih =>
      obtain ⟨key, value, rfl⟩ := hsteps step List.mem_cons_self
      rw [run_property, on_bind] at hgo
      rcases hwrite : (each (setProperty key value) items).on g with
        ⟨e | units, g₁⟩
      · rw [hwrite] at hgo
        cases hgo
      · rw [hwrite] at hgo
        exact ih (fun s hs => hsteps s (List.mem_cons_of_mem _ hs)) hgo

/-- So does one behind a step that clears. -/
theorem items_of_cleared {steps : List Step} {items out : List Item}
    (hsteps : ∀ step ∈ steps, ∃ key value, step = .call .property [key, value])
    (hgo : (run .plain (Query.clearing [] :: steps) items).on g
      = (.ok out, g')) : out = items := by
  change (each (fun item =>
    allChildren [Query.child [.call .properties [], .call .drop []]] item)
      items >>= fun _ => run .plain steps items).on g = _ at hgo
  rw [on_bind] at hgo
  split at hgo
  · exact items_of_writes hsteps hgo
  · cases hgo

/-- A new vertex has no properties before they are written. -/
theorem on_addVertex (g : Graph) (label : Value) (rest : List Step) :
    ∃ g' k, (run .plain (.call .addVertex [label] :: rest) [.start]).on g
        = (run .plain rest [.element k]).on g' ∧
        (g'.element k).props = [] := by
  refine ⟨(g.addVertex label .null []).1, (g.addVertex label .null []).2, rfl,
    ?_⟩
  have hnew :=
    element_add g.freshId.1 ⟨g.freshId.2, label, [], none⟩ g.freshId.1.size
  rw [if_pos rfl] at hnew
  exact congrArg Element.props hnew

theorem props_withProps_nil (g : Graph) (k : Handle) :
    ((g.withProps k []).element k).props = [] := by
  rw [withProps, element_update]
  split
  · rfl
  · next hk =>
    have habsent : g.element k = .absent := by
      unfold element
      rw [List.getD_eq_getElem?_getD, List.getElem?_eq_none]
      · rfl
      · exact Nat.le_of_not_lt fun hlt => hk ⟨rfl, hlt⟩
    rw [habsent]
    rfl

-- =============================================================== what is kept

/-- What is known of the properties of an element stays known. -/
def Retains (k : Handle) (P : Entries → Prop) (g g' : Graph) : Prop :=
  P (g.element k).props → P (g'.element k).props

private theorem steady_retains (k : Handle) (P : Entries → Prop) :
    Steady (Retains k P) where
  refl _ h := h
  trans h₁ h₂ h := h₂ (h₁ h)

variable {P : Entries → Prop}

/-- The id of an element is no property of it. -/
private theorem retains_setProperty_id (value : Value) :
    Within (Retains k P) (setProperty .idKey value (.element k)) := by
  intro g hP
  have hrename : ((g.rename k value).element k).props
      = (g.element k).props := by
    rw [element_rename]
    split <;> rfl
  have hindex : ((g.rename k value).index value k).element k
      = (g.rename k value).element k := by
    unfold index
    split <;> rfl
  rw [on_setProperty_id]
  split
  · show P (((g.rename k value).index value k).element k).props
    rw [hindex, hrename]
    exact hP
  · show P ((g.rename k value).element k).props
    rw [hrename]
    exact hP

private theorem retains_setProperty {key value : Value} (hid : key ≠ .idKey)
    (hP : ∀ es, P es → P (Entries.insert key value es)) :
    Within (Retains k P) (setProperty key value (.element k)) := by
  intro g hold
  rw [← withProps_props g k] at hold ⊢
  by_cases hkey : key.isKey = true
  · rw [on_put hkey hid]
    by_cases hk : k < g.size
    · rw [props_withProps hk] at hold
      show P ((g.withProps k _).element k).props
      rw [props_withProps hk]
      exact hP _ hold
    · have habsent : ∀ es : Entries, (g.withProps k es).element k
          = g.element k := by
        intro es
        rw [withProps, element_update, if_neg fun hboth => hk hboth.2]
      rw [habsent] at hold
      show P ((g.withProps k _).element k).props
      rw [habsent]
      exact hold
  · rw [on_setProperty hid, if_neg hkey]
    exact hold

/-- A row of writes keeps what each of them keeps. -/
theorem retains_writes {steps : List Step}
    (hsteps : ∀ step ∈ steps, ∃ key value,
      step = .call .property [key, value] ∧
        (key ≠ .idKey → ∀ es, P es → P (Entries.insert key value es))) :
    Within (Retains k P) (run .plain steps [.element k]) := by
  have hsteady := steady_retains k P
  induction steps with
  | nil => exact within_pure hsteady _
  | cons step steps ih =>
      obtain ⟨key, value, rfl, hP⟩ := hsteps step List.mem_cons_self
      have hwrite : Within (Retains k P)
          (each (setProperty key value) [.element k]) := by
        refine within_each hsteady fun item hitem => ?_
        rw [List.mem_singleton.mp hitem]
        by_cases hid : key = .idKey
        · rw [hid]
          exact retains_setProperty_id value
        · exact retains_setProperty hid (hP hid)
      rw [run_property]
      exact hwrite.bind hsteady fun _ => ih fun s hs =>
        hsteps s (List.mem_cons_of_mem _ hs)

end Graph

end GraphMapper

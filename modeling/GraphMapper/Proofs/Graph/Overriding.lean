/-
Properties of some elements overridden, and nothing else changed.

An update goes through its writes one by one. Each of them drops what the
selected elements have under one key, from all of them, and is then made to all
of them; the elements are handed on as they came. So what is done to the graph
by one write is one change of properties to each element (`on_rewriting`), and
what is done by a row of them is one change too, if no key is written twice
(`on_rewritings`): the old properties that none of the keys finds, and behind
them the writes.

# One change for a row of writes

Two writes under different keys commute on each element, up to the order in
which properties stand, and so a row of them can be told at once
(`overridden_cons`). That two elements are changed one after the other makes no
difference either (`revised_cons`), since no write looks at another element.

Main statement: `evaluate_rewritings`.

Chain: `Graph.Writing` for one element, `Query.Updating` for the steps;
`Connector.Updating` has the call.
-/
import GraphMapper.Proofs.Graph.Writing
import GraphMapper.Proofs.Query.Paging
import GraphMapper.Proofs.Query.Updating

namespace GraphMapper

namespace Entries

variable {changes es : Entries} {e : Value × Value} {key : Value} {f : Face}

/-- Entries with changes in the place of what there is under their keys. -/
def overridden (changes es : Entries) : Entries :=
  es.filter (fun e => !e.1.isIn (keys changes)) ++ changes

theorem overridden_nil (es : Entries) : overridden [] es = es := by
  unfold overridden
  rw [List.append_nil]
  exact List.filter_eq_self.mpr fun _ _ => rfl

/-- The first change may be made before the others, if none of these has its
key. -/
theorem overridden_cons (h : Distinct (e :: changes)) (es : Entries) :
    overridden changes (overridden [e] es) = overridden (e :: changes) es := by
  obtain ⟨-, hne, hrest⟩ := Distinct.cons_iff.mp h
  have hstays : (!e.1.isIn (keys changes)) = true := by
    rw [Bool.not_eq_true', Bool.eq_false_iff]
    intro hin
    obtain ⟨key, hkey, hsame⟩ := List.any_eq_true.mp hin
    obtain ⟨d, hd, rfl⟩ := List.mem_map.mp hkey
    obtain ⟨f, hf⟩ := hrest.faced d hd
    exact hne d hd (hf.trans ((Value.same_iff_face' hf).mp hsame).symm)
  have hfirst : [e].filter (fun d => !d.1.isIn (keys changes)) = [e] :=
    List.filter_cons_of_pos hstays
  have hothers : ∀ d ∈ es, ((!d.1.isIn (keys changes)) && !d.1.isIn (keys [e]))
      = !d.1.isIn (keys (e :: changes)) := fun d _ => by
    simp only [Value.isIn, keys, List.map_cons, List.map_nil, List.any_cons,
      List.any_nil, Bool.or_false, Bool.not_or, Bool.and_comm]
  unfold overridden
  rw [List.filter_append, List.filter_filter, List.filter_congr hothers,
    hfirst, List.append_assoc, List.singleton_append]

/-- What is changed is found as it is changed to, and all else as it was. -/
theorem lookup?_overridden (hkey : key.face? = some f) (es : Entries) :
    lookup? key (overridden changes es)
      = (lookup? key changes).or (lookup? key es) := by
  have hfirst : lookup? key (overridden changes es)
      = (lookup? key (es.filter fun e => !e.1.isIn (keys changes))).or
        (lookup? key changes) := by
    unfold lookup? overridden
    rw [List.find?_append]
    cases (es.filter fun e => !e.1.isIn (keys changes)).find? fun e =>
      e.1.sameKey key <;> rfl
  have hin : ∀ {other : Value}, other.sameKey key = true →
      other.isIn (keys changes) = (lookup? key changes).isSome := by
    intro other hsame
    have hother := (Value.sameKey_iff_face hkey).mp hsame
    rw [← has_eq_isSome]
    unfold Value.isIn has keys
    rw [List.any_map]
    refine List.any_congr rfl fun d => ?_
    rw [Function.comp_apply, Bool.eq_iff_iff, Value.same_iff_face hother,
      Value.sameKey_iff_face hkey]
  rw [hfirst]
  cases hfound : lookup? key changes with
  | none =>
      rw [Option.or_none, Option.none_or]
      refine lookup?_filter fun e _ hsame => ?_
      rw [hin hsame, hfound]
      rfl
  | some v =>
      rw [lookup?_eq_none hkey fun e he hface => ?_]
      · rfl
      · have hkept := (List.mem_filter.mp he).2
        rw [hin ((Value.sameKey_iff_face hkey).mpr hface), hfound] at hkept
        cases hkept

end Entries

namespace Graph

open Run Query

variable {α : Type} {g g' : Graph} {hs : List Handle} {h k : Handle}
  {changes : Entries} {e : Value × Value} {f f' : Entries → Entries}

-- ============================================================== some elements

/-- The graph with the properties of some elements changed. -/
def revised (g : Graph) (hs : List Handle) (f : Entries → Entries) : Graph :=
  { g with elements := g.elements.mapIdx fun k e =>
      if k ∈ hs then { e with props := f e.props } else e }

/-- Nothing differs but the properties of some elements, which are overridden
by the changes. -/
structure Overridden (hs : List Handle) (changes : Entries)
    (g g' : Graph) : Prop where
  vertices : g'.vertices = g.vertices
  edges : g'.edges = g.edges
  nextId : g'.nextId = g.nextId
  size : g'.size = g.size
  chosen : ∀ h ∈ hs, g'.element h
    = { g.element
      h with props := Entries.overridden changes (g.element h).props }
  others : ∀ h, h ∉ hs → g'.element h = g.element h

private theorem getElem?_revised (g : Graph) (hs : List Handle)
    (f : Entries → Entries) (k : Handle) :
    (g.revised hs f).elements[k]?
      = g.elements[k]?.map fun e => if k ∈ hs then
        { e with props := f e.props } else e :=
  List.getElem?_mapIdx

private theorem element_revised (g : Graph) (hs : List Handle)
    (f : Entries → Entries) (k : Handle) :
    (g.revised hs f).element k
      = if k ∈ hs ∧ k < g.size then
        { g.element k with props := f (g.element k).props }
        else g.element k := by
  unfold element size
  rw [List.getD_eq_getElem?_getD, List.getD_eq_getElem?_getD, getElem?_revised]
  by_cases hk : k < g.elements.length
  · by_cases hmem : k ∈ hs <;> simp [hk, hmem]
  · simp [hk]

theorem overridden_revised (hlt : ∀ h ∈ hs, h < g.size) (changes : Entries) :
    Overridden hs changes g (g.revised hs (Entries.overridden changes)) where
  vertices := rfl
  edges := rfl
  nextId := rfl
  size := List.length_mapIdx
  chosen h hh := by rw [element_revised, if_pos ⟨hh, hlt h hh⟩]
  others h hh := by rw [element_revised, if_neg fun hboth => hh hboth.1]

/-- Graphs that may differ only in their elements are the same if these are,
place by place. -/
private theorem eq_of_elements {g g' : Graph}
    (hrest : g = { g' with elements := g.elements })
    (h : ∀ k : Nat, g.elements[k]? = g'.elements[k]?) : g = g' := by
  rw [hrest, List.ext_getElem? h]

private theorem revised_nil (g : Graph) (f : Entries → Entries) :
    g.revised [] f = g := by
  refine eq_of_elements rfl fun k => ?_
  rw [getElem?_revised]
  simp

theorem revised_id (g : Graph) (hs : List Handle) (hf : ∀ es, f es = es) :
    g.revised hs f = g := by
  refine eq_of_elements rfl fun k => ?_
  rw [getElem?_revised]
  simp [hf]

/-- One element may be changed before the others. -/
theorem revised_cons (hh : h ∉ hs) (g : Graph) (f : Entries → Entries) :
    (g.update h fun e => { e with props := f e.props }).revised hs f
      = g.revised (h :: hs) f := by
  refine eq_of_elements rfl fun k => ?_
  rw [getElem?_revised, getElem?_revised, update, List.getElem?_modify]
  by_cases hk : h = k
  · subst hk
    simp [hh, Function.comp_def]
  · simp [hk, Ne.symm hk]

private theorem revised_revised (g : Graph) (hs : List Handle)
    (f f' : Entries → Entries) :
    (g.revised hs f).revised hs f' = g.revised hs fun es => f' (f es) := by
  refine eq_of_elements rfl fun k => ?_
  rw [getElem?_revised, getElem?_revised, getElem?_revised, Option.map_map]
  by_cases hk : k ∈ hs <;> simp [hk, Function.comp_def]

-- ==================================================================== writes

/-- What is done to each element in turn is done to all of them. -/
private theorem on_each_revised {r : Item → Run α}
    (hr : ∀ g h, ∃ a, (r (.element h)).on g
      = (.ok a, g.update h fun e => { e with props := f e.props }))
      (hnodup : hs.Nodup)
    (g : Graph) :
    ∃ as, (each r (hs.map .element)).on g = (.ok as, g.revised hs f) := by
  induction hs generalizing g with
  | nil => exact ⟨[], by rw [revised_nil]; rfl⟩
  | cons h hs ih =>
      obtain ⟨hne, hrest⟩ := List.nodup_cons.mp hnodup
      obtain ⟨a, ha⟩ := hr g h
      obtain ⟨as, has⟩ :=
        ih hrest (g.update h fun e => { e with props := f e.props })
      refine ⟨a :: as, ?_⟩
      rw [List.map_cons, each, on_bind_ok ha, on_bind_ok has, revised_cons hne]
      rfl

/-- A write that is made to all elements overrides what they have under its
key. -/
theorem on_rewriting {face : Face} (hkey : e.1.face? = some face)
    (hnodup : hs.Nodup) (rest : List Step) (g : Graph) :
    (run .plain (rewriting e ++ rest) (hs.map .element)).on g
      = (run .plain rest (hs.map .element)).on
        (g.revised hs (Entries.overridden [e])) := by
  have hin : ∀ key : Value,
      covers [e.1] key = true ↔ key.face? = some face := by
    intro key
    unfold covers
    rw [List.isEmpty_cons, Bool.false_or, Value.isIn, List.any_cons,
      List.any_nil, Bool.or_false, Value.same_iff_face' hkey]
  let dropped (es : Entries) : Entries :=
    Entries.those (fun key => !covers [e.1] key) es
  have hclear : ∀ (g : Graph) h, ∃ a, (allChildren
      [Query.child [.call .properties [e.1], .call .drop []]] (.element h)).on
        g
        = (.ok a, g.update h fun e =>
          { e with props := dropped e.props }) := by
    intro g h
    refine ⟨false, ?_⟩
    rw [← withProps_own]
    refine on_clear (fun a b hsame => ?_) fun d _ hd => ?_
    · rw [Bool.eq_iff_iff, hin, hin, Value.face_eq_of_sameKey hsame]
    · exact (Value.sameKey_iff_face ((hin _).mp hd)).mpr ((hin _).mp hd)
  have hput : ∀ (g : Graph) h, ∃ a, (setProperty e.1 e.2 (.element h)).on g
      = (.ok a, g.update h fun d =>
        { d with props := Entries.insert e.1 e.2 d.props }) := by
    intro g h
    have hid : e.1 ≠ .idKey := by
      rintro heq
      rw [heq] at hkey
      cases hkey
    refine ⟨(), ?_⟩
    rw [← withProps_own]
    have hgo : (setProperty e.1 e.2 (.element h)).on
        (g.withProps h (g.element h).props) = _ :=
      on_put (Value.isKey_of_face hkey) hid e.2
    rwa [withProps_props] at hgo
  obtain ⟨_, hclears⟩ := on_each_revised hclear hnodup g
  obtain ⟨_, hputs⟩ := on_each_revised hput hnodup (g.revised hs dropped)
  -- with nothing left under its key the write goes to the end
  have hboth : (fun es => Entries.insert e.1 e.2 (dropped es))
      = Entries.overridden [e] := by
    funext es
    have hnew : ∀ d ∈ dropped es, d.1.sameKey e.1 = false := by
      intro d hd
      have hother := (List.mem_filter.mp hd).2
      rw [Bool.not_eq_true', Bool.eq_false_iff, ne_eq, hin] at hother
      rw [Bool.eq_false_iff, ne_eq, Value.sameKey_iff_face hkey]
      exact hother
    exact Entries.insert_of_new hnew e.2
  rw [revised_revised, hboth] at hputs
  rw [rewriting, List.cons_append, List.cons_append, List.nil_append]
  refine (on_bind_ok hclears).trans ?_
  rw [run_property, on_bind_ok hputs]

/-- Writes under different keys override what the elements have under these
keys. -/
theorem on_rewritings (hchanges : Entries.Distinct changes) (hnodup : hs.Nodup)
    (rest : List Step) (g : Graph) :
    (run .plain (changes.flatMap rewriting ++ rest) (hs.map .element)).on g
      = (run .plain rest (hs.map .element)).on
        (g.revised hs (Entries.overridden changes)) := by
  induction changes generalizing g with
  | nil =>
      rw [revised_id g hs Entries.overridden_nil]
      rfl
  | cons e changes ih =>
      obtain ⟨⟨face, hface⟩, -, hrest⟩ := Entries.Distinct.cons_iff.mp hchanges
      rw [List.flatMap_cons, List.append_assoc, on_rewriting hface hnodup,
        ih hrest, revised_revised]
      congr 2
      funext es
      exact Entries.overridden_cons hchanges es

/-- An update overrides the properties of what has been selected, and counts
it. -/
theorem evaluate_rewritings {selected : List Step}
    (hselected : g.evaluate selected = (.ok (hs.map .element), g))
    (hnodup : hs.Nodup) (hchanges : Entries.Distinct changes) :
    g.evaluate (selected ++ changes.flatMap rewriting ++ [.call .count []])
      = (.ok [.number hs.length],
        g.revised hs (Entries.overridden changes)) := by
  have hgo : (run .plain selected [.start]).on g
      = (.ok (hs.map .element), g) := hselected
  obtain ⟨name, args, rest, hrest, hby, hto⟩ : ∃ name args rest,
      changes.flatMap rewriting ++ [.call .count []]
        = .call name args :: rest ∧
        name ≠ .orderBy ∧ name ≠ .to := by
    cases changes with
    | nil => exact ⟨.count, _, _, rfl, by decide, by decide⟩
    | cons e changes => exact ⟨.sideEffect, _, _, rfl, by decide, by decide⟩
  rw [List.append_assoc, hrest, evaluate_append hby hto, on_bind_ok hgo,
    ← hrest, on_rewritings hchanges hnodup]
  show (Except.ok [Item.number (hs.map Item.element).length], _) = _
  rw [List.length_map]

end Graph

end GraphMapper

/-
What creations do to a graph.

The traversal of a creation makes an element and writes a record to it, entry
by entry (`create_eq_ok`). If none of the ids that it gives is taken, and it is
not refused, the graph has gained the element; or there was nowhere for an edge
to start at, and nothing has been done (`evaluate_create`).

# Two things that can be in the way

A write to the new element may give it an id that another one has. Then the
other would be lost to all traversals, so creations are told of where this does
not happen (`Fresh`). And an edge may refer to vertices that are not there. If
it is the first, nothing fails and nothing is made (`StartsNowhere`); if it is
the second, the traversal fails.

Chain: `Graph.Creating` for the writes; `Connector.Creation` has the whole
call.
-/
import GraphMapper.Proofs.Graph.Creating
import GraphMapper.Proofs.Query.ById

namespace GraphMapper

namespace Query

open Build

variable {m : Model} {record : Value} {steps : List Step} {g : Graph}

-- ============================================================= the traversal

/-- What the record of an edge refers to as its ends. -/
def references (m : Model) (record : Value) :
    Checked ((String × String) × (String × String)) := do
  let data ← record.toEntries >>= Record.toStorage m
  let origin ← Reference.parse (Entries.field "from" data) "from"
  let target ← Reference.parse (Entries.field "to" data) "to"
  .ok (origin, target)

/-- A record is written entry by entry. -/
private theorem writes_of_write {leftOut : List Value} {es : Entries}
    {start : List Step}
    (h : traversalFrom start (Record.write m leftOut es) = .ok steps) :
    ∃ ps : Entries, steps = start ++ ps.map Graph.put := by
  have hadds : Adds (fun step => ∃ p, step = Graph.put p)
      (Record.write m leftOut es) := by
    refine adds_forM fun e _ => ?_
    unfold Record.writeEntry
    split
    · exact adds_pure ()
    · split
      · exact adds_step ⟨(.idKey, e.2), rfl⟩
      · exact .of_check fun stored _ => adds_step ⟨(e.1, stored), rfl⟩
  obtain ⟨more, rfl, hmore⟩ := hadds.traversalFrom h
  have hputs : ∃ ps : Entries, more = ps.map Graph.put := by
    clear h
    induction more with
    | nil => exact ⟨[], rfl⟩
    | cons step more ih =>
        obtain ⟨p, rfl⟩ := hmore step List.mem_cons_self
        obtain ⟨ps, rfl⟩ := ih fun s hs => hmore s (List.mem_cons_of_mem _ hs)
        exact ⟨p :: ps, rfl⟩
  obtain ⟨ps, rfl⟩ := hputs
  exact ⟨ps, rfl⟩

/-- A creation makes a vertex, or an edge between what the record refers to,
and writes to it. -/
theorem create_eq_ok (h : traversalFrom [] (create m record) = .ok steps) :
    ∃ ps : Entries,
      (m.isEdge = false ∧
        steps = .call .addVertex [m.label] :: ps.map Graph.put) ∨
    ∃ origin target,
      m.isEdge = true ∧ references m record = .ok (origin, target) ∧
      steps = edgeBetween m origin target ++ ps.map Graph.put := by
  obtain ⟨data, hdata, h⟩ := traversalFrom_check h
  by_cases hkind : m.isEdge = true
  · rw [if_pos hkind] at h
    obtain ⟨origin, horigin, h⟩ := traversalFrom_check h
    obtain ⟨target, htarget, h⟩ := traversalFrom_check h
    obtain ⟨ps, hps⟩ := writes_of_write (traversalFrom_append h)
    refine ⟨ps, .inr ⟨origin, target, hkind, ?_, hps⟩⟩
    unfold references
    rw [hdata]
    simp only [bind, Except.bind, horigin, htarget]
  · rw [if_neg hkind] at h
    obtain ⟨u, mid, hmid, h⟩ := traversalFrom_bind h
    obtain ⟨ps, hps⟩ := writes_of_write h
    refine ⟨ps, .inl ⟨Bool.eq_false_iff.mpr hkind, ?_⟩⟩
    rw [hps, ← (Prod.mk.inj hmid).2]
    rfl

-- ================================================================ evaluation

/-- No id that a creation gives its element is taken: neither the one that is
given out next, nor what the record has for one. These are values that
applications can make. -/
structure Fresh (m : Model) (record : Value) (g : Graph) : Prop where
  next : (Graph.indexOf m.isEdge g).Free g.freshId.2
  given : ∀ steps id, traversalFrom [] (create m record) = .ok steps →
    .call .property [.idKey, id] ∈ steps →
      id.isProper = true ∧ (Graph.indexOf m.isEdge g).Free id

/-- The ends of a new element are the vertices that the record refers to, if it
is an edge. -/
def Joins (m : Model) (record : Value) (g : Graph) : Option Ends → Prop
  | none => m.isEdge = false
  | some ends =>
      m.isEdge = true ∧ ∃ origin target t,
        references m record = .ok (origin, target) ∧
      g.named origin = some ends.origin ∧ g.named target = some t ∧
        ends.target = some t

/-- The record of an edge refers to no vertex that the edge could start at. -/
def StartsNowhere (m : Model) (record : Value) (g : Graph) : Prop :=
  m.isEdge = true ∧ ∃ origin target,
    references m record = .ok (origin, target) ∧ g.named origin = none

/-- Writing to the new element makes it an element with the same label and
ends. -/
private theorem on_created {ps : Entries} {label : Value} {ends : Option Ends}
    {g₁ : Graph} (hg : Graph.Gains label ends g g₁)
    (hps : ∀ id, (.idKey, id) ∈ ps →
      id.isProper = true ∧ (Graph.indexOf ends.isSome g).Free id) :
    (∃ e g', e.IsTextless ∧
      (Graph.run .plain (ps.map Graph.put) [.element g.size]).on g₁
        = (.error e, g')) ∨
    ∃ g', (Graph.run .plain (ps.map Graph.put) [.element g.size]).on g₁
      = (.ok [.element g.size], g') ∧ Graph.Gains label ends g g' := by
  by_cases hwrites : ∀ p ∈ ps, Graph.canWrite p = true
  · refine .inr ⟨_, Graph.on_writes hwrites g₁, hg.writes fun p hp hid => ?_⟩
    obtain ⟨key, id⟩ := p
    obtain rfl : key = .idKey := hid
    obtain ⟨hproper, hfree⟩ := hps id hp
    exact ⟨Value.sameKey_self hproper (hwrites _ hp), hfree⟩
  · obtain ⟨p, hp⟩ := Classical.not_forall.mp hwrites
    obtain ⟨hmem, hno⟩ := Classical.not_imp.mp hp
    exact .inl (Graph.on_writes_refused
      ⟨p, hmem, Bool.eq_false_iff.mpr hno⟩ g₁)

/-- What comes of a creation: it is refused, an edge has nowhere to start at,
or the graph gains an element. -/
theorem evaluate_create (hs : Graph.Sound [] g) (hfresh : Fresh m record g)
    (h : traversalFrom [] (create m record) = .ok steps) :
    (∃ e g', g.evaluate steps = (.error e, g') ∧
      (e.IsTextless ∨ e = Graph.noTarget)) ∨
    (StartsNowhere m record g ∧ g.evaluate steps = (.ok [], g)) ∨
    ∃ ends g', Joins m record g ends ∧
      g.evaluate steps = (.ok [.element g.size], g') ∧
      Graph.Gains m.label ends g g' := by
  obtain ⟨ps, hcreate⟩ := create_eq_ok h
  -- an id the record gives is fresh, wherever it stands among the writes
  have hgiven : ∀ id, (.idKey, id) ∈ ps →
      id.isProper = true ∧ (Graph.indexOf m.isEdge g).Free id := by
    intro id hid
    have hput : Step.call .property [.idKey, id] ∈ ps.map Graph.put :=
      List.mem_map_of_mem (f := Graph.put) hid
    refine hfresh.given steps id h ?_
    rcases hcreate with ⟨-, rfl⟩ | ⟨origin, target, -, -, rfl⟩
    · exact List.mem_cons_of_mem _ hput
    · exact List.mem_append_right _ hput
  have hnext := hfresh.next
  rcases hcreate with ⟨hkind, rfl⟩ | ⟨origin, target, hkind, hrefs, rfl⟩
  · rw [hkind] at hnext hgiven
    rcases on_created (Graph.gains_addVertex hnext m.label) hgiven with
      ⟨e, g', he, hrefused⟩ | ⟨g', hdone, hgains⟩
    · exact .inl ⟨e, g', hrefused, .inl he⟩
    · exact .inr (.inr ⟨none, g', hkind, hdone, hgains⟩)
  · rw [hkind] at hnext hgiven
    cases horigin : g.named origin with
    | none =>
        refine .inr (.inl ⟨⟨hkind, origin, target, hrefs, horigin⟩, ?_⟩)
        exact (Graph.on_edgeBetween_nowhere horigin _).trans
          (Graph.on_writes_nothing ps g)
    | some k =>
        have hgo : (Graph.run .plain
            (edgeBetween m origin target ++ ps.map Graph.put) [.start]).on g
              = _ := Graph.on_edgeBetween hs horigin (ps.map Graph.put)
        cases htarget : g.named target with
        | none =>
            rw [htarget] at hgo
            exact .inl ⟨_, _, hgo, .inr rfl⟩
        | some t =>
            rw [htarget] at hgo
            have hjoins : Joins m record g (some ⟨k, some t⟩) :=
              ⟨hkind, origin, target, t, hrefs, horigin, htarget, rfl⟩
            rcases on_created
                (Graph.gains_withEdge hnext m.label k t) hgiven with
              ⟨e, g', he, hrefused⟩ | ⟨g', hdone, hgains⟩
            · exact .inl ⟨e, g', hgo.trans hrefused, .inl he⟩
            · exact .inr (.inr ⟨_, g', hjoins, hgo.trans hdone, hgains⟩)

end Query

end GraphMapper

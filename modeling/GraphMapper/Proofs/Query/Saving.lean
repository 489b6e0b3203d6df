/-
What the writing of records leaves.

A creation and a replacement with a record of declared fields leave stored
forms under storage keys, and nothing else (`held_of_written`): each step
writes the id or such a form.

# Saving what has been read

A vertex that is replaced by the record that it is read as has its properties
stored again, and is as it was otherwise (`evaluate_replace_read`).

Chain: `Graph.Writing` for rows of writes, `Record.Saving` for the record;
`Connector.Resaving` repeats it, and `Query.Replacing` does it with any record.
-/
import GraphMapper.Proofs.Graph.Writing
import GraphMapper.Proofs.Query.ById
import GraphMapper.Proofs.Record.Saving

namespace GraphMapper

namespace Query

open Build Record

variable {m : Model} {f : Field} {es : Entries} {steps : List Step}

-- ================================================================== written

/-- The step writes the id, or a stored form under the storage key of a
field. -/
def Stores (m : Model) (step : Step) : Prop :=
  (∃ v, step = .call .property [.idKey, v]) ∨
    ∃ f ∈ m.others, ∃ key v, step = .call .property [key, v] ∧ key.IsPlain ∧
      key.face? = f.key.face? ∧ IsStored f.type v

/-- What an application has written with a record of declared fields. -/
inductive Written (m : Model) (props : Entries) : Prop where
  | create {g g' : Graph} {es : Entries} {steps : List Step} {k : Handle}
      (hes : Declared m es)
      (hsteps : traversalFrom [] (create m (.map es)) = .ok steps)
      (hgo : g.evaluate steps = (.ok [.element k], g'))
      (hprops : (g'.element k).props = props)
  | replace {g g' : Graph} {id : Value} {es : Entries} {steps : List Step}
      {k : Handle} (hid : id.isScalar = true) (hes : Declared m es)
      (hself : ∀ p ∈ (g.element k).props, p.1.sameKey p.1 = true)
      (hsteps : traversalFrom [] (replace m id (.map es)) = .ok steps)
      (hgo : g.evaluate steps = (.ok [.element k], g'))
      (hprops : (g'.element k).props = props)

theorem Stores.property {step : Step} (hstep : Stores m step) :
    ∃ key value, step = .call .property [key, value] ∧
      (key ≠ .idKey → ∀ es,
        Held m es → Held m (Entries.insert key value es)) := by
  rcases hstep with ⟨v, rfl⟩ | ⟨f, hf, key, v, rfl, hplain, hkey, hv⟩
  · exact ⟨_, _, rfl, fun hne => absurd rfl hne⟩
  · exact ⟨_, _, rfl, fun _ es hes => hes.insert hf hplain hkey hv⟩

section

variable (h : m.Apart) (hs : m.Storable)

include h hs

private theorem adds_stores (hes : Declared m es) (leftOut : List Value) :
    Adds (Stores m) (write m leftOut (inStorage m es)) := by
  obtain ⟨face, hface⟩ := h.plainId.faced
  refine adds_forM fun p hp => ?_
  have hplain := plain_inStorage h hs hes hp
  unfold writeEntry
  by_cases hleft : p.1.isIn leftOut = true
  · rw [if_pos hleft]
    exact adds_pure ()
  · rw [if_neg hleft]
    by_cases hid : p.1.equal m.idField = true
    · rw [if_pos hid]
      exact adds_step (.inl ⟨_, rfl⟩)
    · rw [if_neg hid]
      rcases mem_inStorage (h.unmixed hs) hes.named hp with
        hkey | ⟨f, hf, hkey⟩
      · exact absurd ((Value.equal_iff_face hface).mpr (hkey.trans hface)) hid
      · refine .of_check fun stored hstored =>
          adds_step (.inr ⟨f, hf, _, _, rfl, hplain, hkey, ?_⟩)
        rw [typeFor_key (h.unmixed hs) hf hkey] at hstored
        exact isStored_of_serialize hstored

omit h hs in
/-- What is written is held. -/
private theorem held_of_writes {g g' : Graph} {k : Handle} {out : List Item}
    (hsteps : ∀ step ∈ steps, Stores m step)
    (hheld : Held m (g.element k).props)
    (hgo : (Graph.run .plain steps [.element k]).on g = (.ok out, g')) :
    out = [.element k] ∧ Held m (g'.element k).props := by
  have hitems : out = [.element k] := by
    refine Graph.items_of_writes (fun step hstep => ?_) hgo
    obtain ⟨key, value, rfl, -⟩ := (hsteps step hstep).property
    exact ⟨key, value, rfl⟩
  have hretains :=
    Graph.retains_writes
      (fun step hstep => (hsteps step hstep).property) g hheld
  rw [hgo] at hretains
  exact ⟨hitems, hretains⟩

/-- A replacement looks an element up, clears it, and writes. -/
private theorem replace_eq (hvertex : m.isEdge = false) {id : Value}
    (hid : id.isScalar = true) (hes : Declared m es) :
    traversalFrom [] (replace m id (.map es))
      = traversalFrom [Filter.source m [id], Filter.labelled m.label,
        clearing []]
          (write m (m.idField :: Reference.fields) (inStorage m es)) := by
  obtain ⟨face, hface⟩ := h.plainId.faced
  have hpayload : payload m (.map es) = .ok (inStorage m es) := by
    show Record.toStorage m (if m.isEdge then withoutEnds es else es) = _
    rw [hvertex]
    exact toStorage_eq (h.unmixed hs) hes.named
  unfold replace select traversalFrom
  simp only [runFrom_bind, runFrom_check, runFrom_append, hpayload,
    Filter.select_scalar hface hid, List.nil_append, List.cons_append]

/-- A creation makes a vertex and writes. -/
theorem create_eq (hvertex : m.isEdge = false) (hes : Declared m es) :
    traversalFrom [] (create m (.map es))
      = traversalFrom [.call .addVertex [m.label]]
        (write m [] (inStorage m es)) := by
  have hdata : ((Value.map es).toEntries >>= Record.toStorage m)
      = .ok (inStorage m es) :=
    toStorage_eq (h.unmixed hs) hes.named
  unfold create traversalFrom
  simp only [runFrom_bind, runFrom_check, runFrom_step, hdata, hvertex,
    Bool.false_eq_true, if_false, List.nil_append]

/-- Applications leave stored forms under storage keys. -/
theorem held_of_written (hvertex : m.isEdge = false) {props : Entries}
    (hwritten : Written m props) : Held m props := by
  cases hwritten with
  | @create g g' es steps k hes hsteps hgo hprops =>
      rw [create_eq h hs hvertex hes] at hsteps
      obtain ⟨writes, rfl, hwrites⟩ :=
        (adds_stores h hs hes []).traversalFrom hsteps
      obtain ⟨g₁, k₁, hadd, hnew⟩ := Graph.on_addVertex g m.label writes
      have hrun := hadd.symm.trans hgo
      obtain ⟨hitems, hheld⟩ :=
        held_of_writes hwrites (by rw [hnew]; exact held_nil) hrun
      have hk : k = k₁ := Item.element.inj (List.singleton_inj.mp hitems)
      rw [← hprops, hk]
      exact hheld
  | @replace g g' id es steps k hid hes hself hsteps hgo hprops =>
      rw [replace_eq h hs hvertex hid hes] at hsteps
      obtain ⟨writes, rfl, hwrites⟩ :=
        (adds_stores h hs hes _).traversalFrom hsteps
      have hrun :=
        (Filter.on_sought hid (clearing [] :: writes)).symm.trans hgo
      have hitems := Graph.items_of_cleared (fun step hstep => by
        obtain ⟨key, value, rfl, -⟩ := (hwrites step hstep).property
        exact ⟨key, value, rfl⟩) hrun
      rw [← hitems, Graph.on_clearing hself] at hrun
      have hempty : Held m ((g.withProps k []).element k).props := by
        rw [Graph.props_withProps_nil]
        exact held_nil
      rw [← hprops]
      exact (held_of_writes hwrites hempty hrun).2

end

/-- Entries that can be written are written in order. -/
theorem runFrom_write {leftOut : List Value}
    {into : Value × Value → Value × Value} {data : Entries}
    (hdata : ∀ p ∈ data, p.1.isIn leftOut = false → Becomes m p (into p))
    (steps : List Step) :
    (write m leftOut data).runFrom steps = (.ok (),
      steps ++ ((data.filter fun p => !p.1.isIn leftOut).map into).map
        Graph.put) := by
  -- on the entries, each left out, written as the key or written as a field
  induction data generalizing steps with
  | nil =>
      rw [List.filter_nil, List.map_nil, List.map_nil, List.append_nil]
      rfl
  | cons p data ih =>
      have hrest := ih fun q hq => hdata q (List.mem_cons_of_mem _ hq)
      show (writeEntry m leftOut p.1 p.2 >>= fun _ =>
        write m leftOut data).runFrom steps = _
      rw [runFrom_bind, List.filter_cons]
      cases hleft : p.1.isIn leftOut with
      | true =>
          unfold writeEntry
          rw [hleft]
          exact hrest steps
      | false =>
          have hfirst : (writeEntry m leftOut p.1 p.2).runFrom steps
              = (.ok (), steps ++ [Graph.put (into p)]) := by
            have hbecomes := hdata p List.mem_cons_self hleft
            unfold Becomes at hbecomes
            unfold writeEntry
            by_cases hid : p.1.equal m.idField = true
            · rw [if_pos hid] at hbecomes
              simp only [hleft, hid, hbecomes, Bool.false_eq_true, if_false,
                if_true, runFrom_step]
              rfl
            · rw [if_neg hid] at hbecomes
              obtain ⟨hkey, hstored⟩ := hbecomes
              simp only [hleft, hid, Bool.false_eq_true, if_false,
                runFrom_bind, runFrom_check, hstored, runFrom_step,
                Graph.put, hkey]
          rw [hfirst]
          simp [hrest]

-- =========================================================== read and written

section

variable (h : m.Apart) (hs : m.Saveable)

include h hs

variable (hvertex : m.isEdge = false) {g : Graph} {k : Handle}
  (hheld : Held m (g.element k).props)

include hheld

/-- The properties that are saved can be written. -/
private theorem write_read (steps : List Step) :
    (write m (leftOut m) (inStorage m (read m (g.element k)))).runFrom steps
      = (.ok (), steps ++ (saved m (g.element k)).map Graph.put) := by
  refine runFrom_write (fun p hp hkept => ?_) steps
  obtain ⟨f, hf, hkey, -, htype, hstored⟩ := stored_of_kept h hs hheld hp hkept
  obtain ⟨face, hface⟩ := h.plainId.faced
  have hother : ¬p.1.equal m.idField = true := fun hequal => hs.own f hf
    (hkey.symm.trans
      (((Value.equal_iff_face hface).mp hequal).trans hface.symm))
  unfold Becomes rewritten
  rw [if_neg hother, htype]
  exact ⟨rfl, serialize_again hstored⟩

include hvertex

/-- A vertex that is replaced by its own record has its properties stored
again. -/
theorem evaluate_replace_read {id : Value} (hid : id.isScalar = true)
    (htarget : Filter.target m id g = some k) : ∃ steps,
    traversalFrom [] (replace m id (.map (read m (g.element k)))) = .ok steps ∧
      g.evaluate steps = (.ok [.element k],
        g.withProps k (saved m (g.element k))) := by
  refine ⟨[Filter.source m [id], Filter.labelled m.label, clearing []]
    ++ (saved m (g.element k)).map Graph.put, ?_, ?_⟩
  · rw [replace_eq h hs.storable hvertex hid (declared_read h _)]
    unfold traversalFrom
    rw [show m.idField :: Reference.fields = leftOut m from rfl,
      write_read h hs hheld]
  · have hsaved := held_saved h hs hheld
    have hself : ∀ p ∈ (g.element k).props, p.1.sameKey p.1 = true := by
      intro p hp
      obtain ⟨face, hface⟩ := (hheld.plain p hp).faced
      exact (Value.sameKey_iff_face hface).mpr hface
    have hkeys : ∀ p ∈ saved m (g.element k),
        p.1.isKey = true ∧ p.1 ≠ .idKey := fun p hp =>
      ⟨(hsaved.plain p hp).isKey, (hsaved.plain p hp).ne_idKey⟩
    have hgo := Filter.on_sought (m := m) (g := g) hid
      (clearing [] :: (saved m (g.element k)).map Graph.put)
    rw [htarget] at hgo
    refine hgo.trans
      ((Graph.on_clearing hself _).trans ((Graph.on_puts hkeys).trans ?_))
    have hput : (saved m (g.element k)).foldl
        (fun acc p => Entries.insert p.1 p.2 acc) [] = saved m (g.element k) :=
          hsaved.distinct.isMapping.ofList_eq
    rw [hput]

end

end Query

end GraphMapper

/-
What a replacement leaves of an element.

A replacement drops all properties of the element that its id names and writes
the record in their place. It comes to the stored forms that an update would
write (`Record.Assigned`), with one exception: what is stored under the name of
an end of an edge is left out when the record is written, whatever the kind of
the model. An edge has no such entry by then, unless another field is stored
under that name; a vertex may have one, and loses it (`Record.Replaced`).

Main statement: `evaluate_replace`.

Chain: `Query.Assigning` for what is written and `Query.Saving` for the
clearing; `Connector.Replacing` has the call.
-/
import GraphMapper.Proofs.Query.Assigning
import GraphMapper.Proofs.Query.Saving

namespace GraphMapper

namespace Record

variable {m : Model} {es props : Entries}

/-- A key that is none of the names of the ends of an edge. -/
def offEnds (key : Value) : Bool := !key.isIn Reference.fields

private theorem respects_offEnds : Entries.Respects offEnds := by
  intro a b hsame
  have hface := Value.face_eq_of_sameKey hsame
  have hend : ∀ s, (Value.text s).same a = (Value.text s).same b := fun s => by
    rw [Bool.eq_iff_iff, Value.same_iff_face' rfl,
      Value.same_iff_face' rfl, hface]
  unfold offEnds Value.isIn Reference.fields
  simp only [List.any_cons, List.any_nil, hend]

/-- Under each storage key, but for the primary key and the names of the ends
of an edge, there is the stored form of what the record has for the field; and
there is nothing else. -/
structure Replaced (m : Model) (es props : Entries) : Prop where
  distinct : Entries.Distinct props
  owned : ∀ p ∈ props, ∃ f ∈ m.others, p.1.face? = f.key.face? ∧
    offEnds f.key = true
  stored : ∀ f ∈ m.others, Entries.lookup? f.key props = if offEnds f.key then
    (Entries.lookup? f.name es).bind fun v =>
      (serialize (some f.type) v).toOption else none

/-- If no field is stored under the name of an end of an edge, nothing is left
out. -/
theorem Replaced.assigned (h : Replaced m es props)
    (hends : ∀ f ∈ m.others, offEnds f.key = true) : Assigned m es props := by
  refine ⟨h.distinct, fun p hp => ?_, fun f hf => ?_⟩
  · obtain ⟨f, hf, hkey, -⟩ := h.owned p hp
    exact ⟨f, hf, hkey⟩
  · rw [h.stored f hf, if_pos (hends f hf)]

/-- What a replacement writes. -/
def replacing (m : Model) (es : Entries) : Entries :=
  Entries.those offEnds (properties m es)

theorem replaced_replacing (h : m.Unmixed) (hes : Writable m es) :
    Replaced m es (replacing m es) := by
  have hassigned := assigned_properties h hes
  refine ⟨hassigned.distinct.sublist List.filter_sublist, fun p hp => ?_,
    fun f hf => ?_⟩
  · obtain ⟨hwritten, hoff⟩ := List.mem_filter.mp hp
    obtain ⟨f, hf, hkey⟩ := hassigned.owned p hwritten
    obtain ⟨face, hface⟩ := h.facedKey f (Model.mem_fields_of_others hf)
    have hsame : p.1.sameKey f.key = true :=
      (Value.sameKey_iff_face hface).mpr (hkey.trans hface)
    exact ⟨f, hf, hkey, (respects_offEnds _ _ hsame).symm.trans hoff⟩
  · by_cases hoff : offEnds f.key = true
    · rw [if_pos hoff, ← hassigned.stored f hf]
      exact Entries.lookup?_those respects_offEnds hoff _
    · obtain ⟨face, hface⟩ := h.facedKey f (Model.mem_fields_of_others hf)
      rw [if_neg hoff]
      refine Entries.lookup?_eq_none hface fun p hp hkey => ?_
      have hnew :=
        Entries.new_of_those respects_offEnds (Bool.eq_false_iff.mpr hoff) p hp
      rw [(Value.sameKey_iff_face hface).mpr hkey] at hnew
      cases hnew

/-- The primary key is left out as well, which the properties do not hold in
the first place. -/
private theorem replacing_eq (h : m.Unmixed) (es : Entries) :
    replacing m es
      = ((inStorage m es).filter fun p => !p.1.isIn (leftOut m)).map
        (entered m) := by
  obtain ⟨face, hface⟩ := h.facedId
  have hleft : ∀ p : Value × Value,
      (!p.1.isIn (leftOut m)) = (offEnds p.1 && !p.1.equal m.idField) := by
    intro p
    have hid : m.idField.same p.1 = p.1.equal m.idField := by
      rw [Bool.eq_iff_iff, Value.same_iff_face' hface,
        Value.equal_iff_face hface]
    show (!(m.idField.same p.1 || p.1.isIn Reference.fields)) = _
    rw [hid, Bool.not_or, Bool.and_comm]
    rfl
  have hentered : ∀ p ∈ (inStorage m es).filter fun p => offEnds p.1 &&
      !p.1.equal m.idField, formed m p = entered m p := by
    intro p hp
    have hother := (Bool.and_eq_true_iff.mp (List.mem_filter.mp hp).2).2
    rw [Bool.not_eq_true'] at hother
    rw [entered, hother, if_neg Bool.false_ne_true]
  unfold replacing properties Entries.those
  simp only [hleft]
  rw [← List.map_congr_left hentered, List.filter_map, List.filter_filter]
  rfl

end Record

namespace Query

open Build Record

variable {m : Model} {g : Graph} {k : Handle} {es : Entries} {id : Value}

section

variable (h : m.Unmixed) (hdistinct : Entries.Distinct es)
  (hes : Writable m (kept m es)) (hid : id.isScalar = true)

include h hdistinct hes hid

/-- A replacement looks an element up, clears it, and writes. -/
private theorem traversalFrom_replace_kept :
    traversalFrom [] (replace m id (.map es)) = .ok
      ([Filter.source m [id], Filter.labelled m.label, clearing []]
        ++ (replacing m (kept m es)).map Graph.put) := by
  obtain ⟨face, hface⟩ := h.facedId
  have hwrite : ∀ start,
      (write m (leftOut m) (inStorage m (kept m es))).runFrom start
        = (.ok (), start ++ (replacing m (kept m es)).map Graph.put) := by
    intro start
    rw [replacing_eq h]
    exact runFrom_write (fun p hp _ => becomes_entered h hes hp) start
  unfold replace select traversalFrom
  simp only [runFrom_bind, runFrom_check, runFrom_append,
    payload_kept h hdistinct hes.toNamed, Filter.select_scalar hface hid,
    List.nil_append, List.cons_append]
  rw [show m.idField :: Reference.fields = leftOut m from rfl, hwrite]
  rfl

/-- The element that the id names has the record for its properties then, and
nothing else has changed. -/
theorem evaluate_replace (hg : Graph.Sound [] g)
    (htarget : Filter.target m id g = some k)
    (hself : ∀ p ∈ (g.element k).props, p.1.sameKey p.1 = true) :
    ∃ steps, traversalFrom [] (replace m id (.map es)) = .ok steps ∧
      g.evaluate steps
        = (.ok [.element k], g.withProps k (replacing m (kept m es))) ∧
      ((g.withProps k (replacing m (kept m es))).element k).props
          = replacing m (kept m es) := by
  have hreplaced := replaced_replacing h hes
  have hkeys : ∀ p ∈ replacing m (kept m es),
      p.1.isKey = true ∧ p.1 ≠ .idKey := by
    intro p hp
    obtain ⟨face, hface⟩ := hreplaced.distinct.faced p hp
    refine ⟨Value.isKey_of_face hface, fun hreserved => ?_⟩
    rw [hreserved] at hface
    cases hface
  have hsize : k < g.size := by
    obtain ⟨⟨e, he, rfl⟩, -⟩ := (Filter.target_eq_some_iff hg hid).mp htarget
    exact Filter.lt_size_of_stored hg he
  refine ⟨_, traversalFrom_replace_kept h hdistinct hes hid, ?_,
    Graph.props_withProps hsize _⟩
  have hgo := Filter.on_sought (m := m) (g := g) hid
    (clearing [] :: (replacing m (kept m es)).map Graph.put)
  rw [htarget] at hgo
  have hput : (replacing m (kept m es)).foldl
      (fun acc p => Entries.insert p.1 p.2 acc) [] = replacing m (kept m es) :=
        hreplaced.distinct.isMapping.ofList_eq
  refine hgo.trans
    ((Graph.on_clearing hself _).trans ((Graph.on_puts hkeys).trans ?_))
  rw [hput]

end

end Query

end GraphMapper

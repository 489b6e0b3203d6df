/-
What an update assigns to the properties of an element.

The ends of an edge cannot be changed, so an update does not look at them
(`Record.kept`), and it leaves the primary key out. For every other field that
the record has, the stored form of the value is written under the storage key,
and nothing else is written (`Record.Assigned`). An update finds the type of an
entry in a way of its own, by the field that the storage key belongs to; it
comes to the type that all other operations find, since no storage key is the
name of another field.

Main statement: `changes_kept`.

Chain: `Query.Single` has the same for one field; `Connector.Updating` and
`Query.Replacing` go on from the changes.
-/
import GraphMapper.Proofs.Query.Single

namespace GraphMapper

namespace Record

variable {m : Model} {es changes : Entries}

/-- What an update looks at in a record: all but the ends of an edge. -/
def kept (m : Model) (es : Entries) : Entries :=
  if m.isEdge then es.filter fun e => !e.1.isIn Reference.fields else es

/-- Under each storage key, but for the primary key, there is the stored form
of what the record has for the field; and there is nothing else. -/
structure Assigned (m : Model) (es changes : Entries) : Prop where
  distinct : Entries.Distinct changes
  owned : ∀ p ∈ changes, ∃ f ∈ m.others, p.1.face? = f.key.face?
  stored : ∀ f ∈ m.others, Entries.lookup? f.key changes
    = (Entries.lookup? f.name es).bind fun v =>
      (serialize (some f.type) v).toOption

theorem assigned_properties (h : m.Unmixed) (hes : Writable m es) :
    Assigned m es (properties m es) := by
  refine ⟨distinct_properties h hes.toNamed, fun p hp => ?_, fun f hf =>
    lookup?_properties h hes hf⟩
  obtain ⟨q, hq, rfl⟩ := List.mem_map.mp hp
  obtain ⟨hstored, hother⟩ := List.mem_filter.mp hq
  refine (mem_inStorage h hes.toNamed hstored).resolve_left fun hid => ?_
  obtain ⟨face, hface⟩ := h.facedId
  rw [(Value.equal_iff_face hface).mpr (hid.trans hface)] at hother
  cases hother

end Record

namespace Query

open Record

variable {m : Model} {es : Entries}

/-- The ends of an edge are taken out one after the other. -/
private theorem withoutEnds_eq (h : Entries.Distinct es) :
    withoutEnds es = es.filter fun e => !e.1.isIn Reference.fields := by
  have hfrom : Entries.erase (.text "from") es
      = es.filter fun e => !e.1.sameKey (.text "from") :=
    h.erase_eq rfl
  have hto : Entries.erase (.text "to") (Entries.erase (.text "from") es)
      = (Entries.erase (.text "from") es).filter fun e =>
        !e.1.sameKey (.text "to") :=
    (h.sublist (Entries.erase_sublist _ _)).erase_eq rfl
  show Entries.erase (.text "to") (Entries.erase (.text "from") es) = _
  rw [hto, hfrom, List.filter_filter]
  refine List.filter_congr fun e _ => ?_
  have hsame : ∀ s, e.1.sameKey (.text s) = (Value.text s).same e.1 := by
    intro s
    rw [Bool.eq_iff_iff, Value.sameKey_iff_face rfl, Value.same_iff_face' rfl]
  rw [hsame, hsame, ← Bool.not_or, Bool.or_comm]
  simp only [Value.isIn, Reference.fields, List.any_cons, List.any_nil,
    Bool.or_false]

/-- The record of a change is what an update looks at, under storage keys. -/
theorem payload_kept (h : m.Unmixed) (hdistinct : Entries.Distinct es)
    (hes : Named m (kept m es)) :
    payload m (.map es) = .ok (inStorage m (kept m es)) := by
  have hkept : (if m.isEdge then withoutEnds es else es) = kept m es := by
    rw [withoutEnds_eq hdistinct]
    rfl
  show Record.toStorage m (if m.isEdge then withoutEnds es else es) = _
  rw [hkept]
  exact toStorage_eq h hes

/-- An update writes the properties of the record. -/
theorem changes_kept (h : m.Unmixed) (hdistinct : Entries.Distinct es)
    (hes : Writable m (kept m es)) :
    changes m (.map es) = .ok (properties m (kept m es)) := by
  obtain ⟨idFace, hidFace⟩ := h.facedId
  -- without the key, each entry left is written as its field has it
  have herase : Entries.erase m.idField (inStorage m (kept m es))
      = (inStorage m (kept m es)).filter fun p => !p.1.equal m.idField := by
    rw [(distinct_inStorage h hes.toNamed).erase_eq hidFace]
    refine List.filter_congr fun p _ => ?_
    rw [Bool.eq_iff_iff, Bool.not_eq_true', Bool.not_eq_true',
      Bool.eq_false_iff, Bool.eq_false_iff, ne_eq, ne_eq,
      Value.sameKey_iff_face hidFace, Value.equal_iff_face hidFace]
  have hwrites :
      ∀ p ∈ (inStorage m (kept m es)).filter fun p => !p.1.equal m.idField, (do
      let name :=
        (Entries.lookup? p.1 (m.fields.map fun f => (f.key, f.name))).getD p.1
      Except.ok (p.1, ← serialize (m.type? name) p.2) :
        Checked (Value × Value)) = .ok (formed m p) := by
    intro p hp
    obtain ⟨hstored, hother⟩ := List.mem_filter.mp hp
    rw [Bool.not_eq_true'] at hother
    have hbecomes := becomes_entered h hes hstored
    unfold Becomes entered at hbecomes
    rw [hother, if_neg Bool.false_ne_true,
      if_neg Bool.false_ne_true] at hbecomes
    rcases mem_inStorage h hes.toNamed hstored with hid | ⟨f, hf, hkey⟩
    · rw [(Value.equal_iff_face hidFace).mpr (hid.trans hidFace)] at hother
      cases hother
    · have hform := hbecomes.2
      rw [typeFor_key h hf hkey] at hform
      dsimp only
      rw [type?_of_key h.toKeyed (Model.mem_fields_of_others hf) hkey, hform]
      rfl
  unfold changes
  rw [payload_kept h hdistinct hes.toNamed, fieldsByKey_eq h.toKeyed]
  show writes m _ (Entries.erase m.idField (inStorage m (kept m es))) = _
  rw [herase]
  exact mapM_eq_ok hwrites

end Query

end GraphMapper

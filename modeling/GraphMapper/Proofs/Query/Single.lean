/-
Records of a single field.

A creation, a replacement and an update find the type of an entry in their own
ways. The first two look for a field named like the storage key before they
look among the columns; an update looks for the field that the storage key
belongs to. Both come to the same unless a field of another type is named like
the storage key (`Record.typeFor_of_keyed`). So a record of one field is
written with the same step by all three, or fails with what the value's stored
form fails with (`traversalFrom_create_single`, `traversalFrom_replace_single`,
`traversalFrom_update_single`).

Chain: `Query.Updating` for builders and `Record.Writing` for a record under
storage keys; `Connector.Single` compares the calls, and `Query.Assigning`
takes records of many fields.
-/
import GraphMapper.Proofs.Query.Updating
import GraphMapper.Proofs.Record.Writing

namespace GraphMapper

namespace Query

open Build Record

variable {m : Model} {f : Field} {p : Value × Value} {id filter : Value}
  {start selected : List Step}

/-- An entry that is not left out is written as it is stored. -/
private theorem traversalFrom_write_single {leftOut : List Value}
    (hleft : p.1.isIn leftOut = false) (hid : p.1.equal m.idField = false) :
    traversalFrom start (write m leftOut [p])
      = (serialize (typeFor m p.1) p.2).map fun s =>
        start ++ [.call .property [p.1, s]] := by
  have hentry : writeEntry m leftOut p.1 p.2 = (do
      let stored ← Build.check (serialize (typeFor m p.1) p.2)
      Build.step .property [p.1, stored]) := by
    unfold writeEntry
    rw [hleft, hid, if_neg Bool.false_ne_true, if_neg Bool.false_ne_true]
  show traversalFrom start (writeEntry m leftOut p.1 p.2 >>= fun _ => pure ())
      = _
  rw [hentry, bind_assoc, traversalFrom_check_bind]
  cases serialize (typeFor m p.1) p.2 <;> rfl

/-- No two fields share a storage key. -/
private theorem distinct_fieldKeys (h : m.Keyed) :
    Entries.Distinct (m.fields.map fun f => (f.key, f.name)) := by
  refine ⟨fun e he => ?_, ?_⟩
  · obtain ⟨f, hf, rfl⟩ := List.mem_map.mp he
    exact h.facedKey f hf
  · unfold Entries.faces
    rw [List.map_map]
    exact h.keys

/-- Each storage key belongs to its field. -/
theorem fieldsByKey_eq (h : m.Keyed) :
    fieldsByKey m = .ok (m.fields.map fun f => (f.key, f.name)) := by
  have hall : ∀ f ∈ m.fields, (fun f : Field =>
      let key := if f.column.isGiven then f.column else f.name
      if key.isKey then Except.ok (key, f.name) else .error key.keyFault) f
        = (.ok (f.key, f.name) : Checked (Value × Value)) := by
    intro f hf
    obtain ⟨face, hface⟩ := h.facedKey f hf
    exact if_pos (Value.isKey_of_face hface)
  unfold fieldsByKey
  rw [mapM_eq_ok hall]
  exact congrArg Except.ok (distinct_fieldKeys h).isMapping.ofList_eq

/-- So the type of an entry is that of the field whose storage key it stands
under. -/
theorem type?_of_key (h : m.Keyed) (hf : f ∈ m.fields)
    (hp : p.1.face? = f.key.face?) :
    m.type? ((Entries.lookup? p.1 (m.fields.map fun f => (f.key, f.name))).getD
      p.1) = some f.type := by
  obtain ⟨face, hface⟩ := h.facedKey f hf
  have hname : Entries.lookup? p.1 (m.fields.map fun f => (f.key, f.name))
      = some f.name :=
    (distinct_fieldKeys h).lookup?_of_mem (List.mem_map_of_mem hf) hface
      (hp.trans hface)
  unfold Model.type?
  rw [hname, Option.getD_some, h.field?_eq hf rfl]
  rfl

private theorem writes_single (h : m.Keyed) (hf : f ∈ m.fields)
    (hp : p.1.face? = f.key.face?) :
    writes m (m.fields.map fun f => (f.key, f.name)) [p]
      = (serialize (some f.type) p.2).map fun s => [(p.1, s)] := by
  unfold writes
  rw [List.mapM_cons, List.mapM_nil]
  dsimp only
  rw [type?_of_key h hf hp]
  cases serialize (some f.type) p.2 <;> rfl

/-- The entry is not taken for the primary key or for an end of an edge. -/
private theorem moved_kept (h : m.Keyed) (hf : f ∈ m.fields)
    (hp : p.1.face? = f.name.face?)
    (hkept : f.key.isIn (m.idField :: Reference.fields) = false) :
    (moved m p).1.isIn (m.idField :: Reference.fields) = false
      ∧ (moved m p).1.equal m.idField = false := by
  have hkey := face_moved h.toFaced hf hp
  obtain ⟨idFace, hidFace⟩ := h.facedId
  obtain ⟨keyFace, hkeyFace⟩ := h.facedKey f hf
  rw [hkeyFace] at hkey
  have hsame : ∀ v : Value, v.same (moved m p).1 = v.same f.key := by
    intro v
    rw [Bool.eq_iff_iff, Value.same_iff_face hkey,
      Value.same_iff_face hkeyFace]
  have hin : (moved m p).1.isIn (m.idField :: Reference.fields) = false := by
    rw [← hkept]
    unfold Value.isIn
    simp only [hsame]
  refine ⟨hin, ?_⟩
  rw [Value.isIn, List.any_cons, Bool.or_eq_false_iff] at hin
  obtain ⟨hother, -⟩ := hin
  rw [Bool.eq_false_iff] at hother ⊢
  intro hequal
  apply hother
  rw [Value.same_iff_face' hidFace]
  exact (Value.equal_iff_face hidFace).mp hequal

-- =========================================================== three traversals

/-- The field is written by all operations alike: it is none that they leave
out, and no field of another type is named like its storage key. -/
structure Plainly (m : Model) (f : Field) : Prop where
  declared : f ∈ m.others
  kept : f.key.isIn (m.idField :: Reference.fields) = false
  shared : ∀ g ∈ m.fields, g.name.face? = f.key.face? → g.type = f.type

section

variable (h : m.Keyed) (hvertex : m.isEdge = false) (hf : Plainly m f)
  (hp : p.1.face? = f.name.face?)

include h hf hp

private theorem type_moved : typeFor m (moved m p).1 = some f.type :=
  have hmem := Model.mem_fields_of_others hf.declared
  typeFor_of_keyed h hmem (face_moved h.toFaced hmem hp) hf.shared

include hvertex

/-- A creation makes a vertex and writes the entry to it. -/
theorem traversalFrom_create_single :
    traversalFrom start (create m (.map [p]))
      = (serialize (some f.type) p.2).map fun s =>
      start ++ [.call .addVertex [m.label],
          .call .property [(moved m p).1, s]] := by
  have hmem := Model.mem_fields_of_others hf.declared
  obtain ⟨-, hid⟩ := moved_kept h hmem hp hf.kept
  have hdata : ((Value.map [p]).toEntries >>= Record.toStorage m)
      = .ok [moved m p] :=
    toStorage_single h.toFaced hmem hp
  have hwrite : traversalFrom (start ++ [.call .addVertex [m.label]])
      (write m [] [moved m p]) = _ :=
    traversalFrom_write_single rfl hid
  rw [type_moved h hf hp, value_moved m p] at hwrite
  unfold create
  rw [traversalFrom_check_bind, hdata]
  show traversalFrom start (if m.isEdge then _ else _) = _
  rw [hvertex, if_neg Bool.false_ne_true, traversalFrom_step_bind, hwrite]
  cases serialize (some f.type) p.2 <;> simp [Except.map]

/-- The record of a change is the entry under its storage key. -/
private theorem payload_single : payload m (.map [p]) = .ok [moved m p] := by
  show Record.toStorage m (if m.isEdge then withoutEnds [p] else [p]) = _
  rw [hvertex, if_neg Bool.false_ne_true]
  exact toStorage_single h.toFaced (Model.mem_fields_of_others hf.declared) hp

/-- A replacement clears the element that it selects and writes the entry to
it. -/
theorem traversalFrom_replace_single
    (hselect : Filter.select m (byId m id) = .ok selected) :
    traversalFrom start (replace m id (.map [p]))
      = (serialize (some f.type) p.2).map fun s =>
      start ++ selected
          ++ [clearing [], .call .property [(moved m p).1, s]] := by
  obtain ⟨hleft, hid⟩ :=
    moved_kept h (Model.mem_fields_of_others hf.declared) hp hf.kept
  have hwrite : traversalFrom (start ++ selected ++ [clearing []])
      (write m (m.idField :: Reference.fields) [moved m p]) = _ :=
    traversalFrom_write_single hleft hid
  rw [type_moved h hf hp, value_moved m p] at hwrite
  unfold replace
  rw [traversalFrom_check_bind, payload_single h hvertex hf hp]
  show traversalFrom start (select m (byId m id) >>= fun _ =>
      append [clearing []] >>= fun _ =>
    write m (m.idField :: Reference.fields) [moved m p]) = _
  rw [traversalFrom_select_bind, hselect]
  show traversalFrom (start ++ selected) (append [clearing []] >>= fun _ => _)
      = _
  rw [traversalFrom_append_bind, hwrite]
  cases serialize (some f.type) p.2 <;> simp [Except.map]

private theorem changes_single :
    changes m (.map [p]) = (serialize (some f.type) p.2).map fun s =>
      [((moved m p).1, s)] := by
  have hmem := Model.mem_fields_of_others hf.declared
  obtain ⟨-, hid⟩ := moved_kept h hmem hp hf.kept
  have hkept : Entries.erase m.idField [moved m p] = [moved m p] := by
    have hother : ¬(moved m p).1.sameKey m.idField = true := by
      obtain ⟨idFace, hidFace⟩ := h.facedId
      rw [Value.sameKey_iff_face hidFace, ← Value.equal_iff_face hidFace, hid]
      exact Bool.false_ne_true
    show (if (moved m p).1.sameKey m.idField = true then [] else [moved m p])
        = _
    rw [if_neg hother]
  have hwrites := writes_single h hmem (face_moved h.toFaced hmem hp)
  rw [value_moved m p] at hwrites
  unfold changes
  rw [payload_single h hvertex hf hp, fieldsByKey_eq h]
  show writes m _ (Entries.erase m.idField [moved m p]) = _
  rw [hkept, hwrites]

/-- An update drops what is under the storage key and writes the entry, to each
element that it selects. -/
theorem traversalFrom_update_single
    (hselect : Filter.select m filter = .ok selected) :
    traversalFrom start (update m filter (.map [p]))
      = (serialize (some f.type) p.2).map fun s =>
      start ++ selected
        ++ [clearing [(moved m p).1], .call .property [(moved m p).1, s],
          .call .count []] := by
  rw [traversalFrom_update, changes_single h hvertex hf hp, hselect]
  cases serialize (some f.type) p.2 with
  | error e => rfl
  | ok s =>
      show Except.ok (start ++ selected ++ rewriting ((moved m p).1, s)
        ++ [.call .count []]) = _
      simp [Except.map, rewriting]

end

end Query

end GraphMapper

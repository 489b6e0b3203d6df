/-
What a record has for its primary key stands apart from everything else.

A field may be stored under any column, so the entry of the primary key could
move away from its name, and another entry could come to stand there. Where
neither happens (`Model.KeepsId`) the entry stays where it is under storage
keys, and the others are renamed as if it were not there (`toStorage_others`,
`toStorage_own`).

# A renaming in two halves

Keys split into those that a mapping takes for the name of the primary key and
all others, and both halves are kept by what renaming does to an entry. So a
record can be renamed half by half (`own_renameKey`, `others_renameKey`), and
what comes of the one half is known without the other.

Chain: `Record.Writing` for renaming; `Query.Identity` draws the consequence
for what is built.
-/
import GraphMapper.Proofs.Record.Writing
import GraphMapper.Query.Builder

namespace GraphMapper

namespace Value

variable {v : Value}

/-- The reserved key of ids is the same as nothing else. -/
private theorem eq_idKey_of_same (h : v.same .idKey = true) : v = .idKey := by
  cases v with
  | symbol s =>
      cases s with
      | reserved r => cases r <;> first | rfl | cases h
      | fieldType t => cases h
      | _ => cases h
  | float x => cases x <;> cases h
  | _ => cases h

private theorem eq_idKey_of_equal (h : v.equal .idKey = true) :
    v = .idKey := by
  cases v with
  | symbol s => exact eq_idKey_of_same h
  | float x => cases x <;> cases h
  | _ => cases h

theorem eq_idKey_of_sameKey (h : v.sameKey .idKey = true) : v = .idKey := by
  unfold sameKey at h
  rw [Bool.and_eq_true] at h
  exact eq_idKey_of_same h.1

end Value

namespace Model

variable {m : Model}

/-- A field is stored under the name of the primary key just when it is the
primary key. No field is named by the reserved key or stored under it, and in a
model of edges the primary key is no end. -/
structure KeepsId (m : Model) : Prop where
  faced : ∃ face, m.idField.face? = some face
  key : ∀ f ∈ m.fields, f.key.face? = m.idField.face?
      ↔ f.name.face? = m.idField.face?
  reserved : ∀ f ∈ m.fields, f.name ≠ .idKey ∧ f.column ≠ .idKey
  ends : m.isEdge = true → m.idField.isIn Reference.fields = false

/-- A key is the name of the primary key. -/
def namesId (m : Model) (key : Value) : Bool := key.equal m.idField

/-- A key is not the name of the primary key. -/
def namesOther (m : Model) (key : Value) : Bool := !m.namesId key

theorem KeepsId.namesId_iff (h : m.KeepsId) {key : Value} :
    m.namesId key = true ↔ key.face? = m.idField.face? := by
  obtain ⟨face, hface⟩ := h.faced
  rw [hface]
  exact Value.equal_iff_face hface

/-- Keys that a mapping takes for the same are both its name, or neither. -/
theorem KeepsId.respects (h : m.KeepsId) : Entries.Respects m.namesId := by
  intro a b hsame
  rw [Bool.eq_iff_iff, h.namesId_iff, h.namesId_iff,
    Value.face_eq_of_sameKey hsame]

theorem KeepsId.respects_others (h : m.KeepsId) :
    Entries.Respects m.namesOther := by
  intro a b hsame
  unfold namesOther
  rw [h.respects a b hsame]

theorem KeepsId.isKey (h : m.KeepsId) {key : Value}
    (hkey : m.namesId key = true) :
    key.isKey = true := by
  obtain ⟨face, hface⟩ := h.faced
  rw [h.namesId_iff, hface] at hkey
  exact Value.isKey_of_face hkey

theorem KeepsId.key_ne (h : m.KeepsId) {f : Field} (hf : f ∈ m.fields) :
    f.key ≠ .idKey := by
  obtain ⟨hname, hcolumn⟩ := h.reserved f hf
  unfold Field.key
  split
  · exact hcolumn
  · exact hname

/-- A field is not found by the reserved key. -/
theorem KeepsId.field?_idKey (h : m.KeepsId) : m.field? .idKey = none := by
  refine List.find?_eq_none.mpr fun f hf hsame => ?_
  exact (h.reserved f hf).1 (Value.eq_idKey_of_sameKey hsame)

/-- So nothing is written under it but the id. -/
theorem KeepsId.typeFor_idKey (h : m.KeepsId) :
    Record.typeFor m .idKey = none := by
  have hcolumns : (m.fields.find? fun f => f.column.equal .idKey) = none :=
    List.find?_eq_none.mpr fun f hf hequal =>
      (h.reserved f hf).2 (Value.eq_idKey_of_equal hequal)
  unfold Record.typeFor Model.type?
  rw [h.field?_idKey, hcolumns]
  rfl

end Model

namespace Record

open Entries

variable {m : Model} {es acc : Entries} {key : Value}

/-- Neither the entry that moves nor the column that it moves to is the primary
key. -/
private theorem namesId_of_renames (h : m.KeepsId) {p : Value × Value}
    (hrenames : renames m p = true) :
    m.namesId p.1 = false ∧ m.namesId (m.column p.1) = false := by
  unfold renames at hrenames
  rw [Bool.and_eq_true, Bool.not_eq_true'] at hrenames
  obtain ⟨hgiven, hmoves⟩ := hrenames
  cases hfound : m.field? p.1 with
  | none =>
      unfold Model.column at hgiven
      rw [hfound] at hgiven
      cases hgiven
  | some f =>
      have hcolumn : m.column p.1 = f.column := by
        unfold Model.column
        rw [hfound]
        rfl
      have hsame : f.name.sameKey p.1 = true :=
        List.find?_some (p := fun g : Field => g.name.sameKey p.1) hfound
      have hname := Value.face_eq_of_sameKey hsame
      have hf := h.key f (List.mem_of_find?_eq_some hfound)
      rw [hcolumn] at hgiven hmoves ⊢
      rw [Field.key, if_pos hgiven] at hf
      -- under the key's name the column is that same name, and nothing moves
      have hother : m.namesId p.1 = false := by
        rw [Bool.eq_false_iff]
        intro hid
        rw [h.namesId_iff] at hid
        obtain ⟨face, hface⟩ := h.faced
        have hstays : f.column.equal p.1 = true := by
          apply (Value.equal_iff_face (hid.trans hface)).mpr
          rw [hf.mpr (hname.trans hid), hface]
        rw [hstays] at hmoves
        cases hmoves
      refine ⟨hother, ?_⟩
      rw [Bool.eq_false_iff] at hother ⊢
      intro hid
      apply hother
      rw [h.namesId_iff] at hid ⊢
      exact hname.symm.trans (hf.mp hid)

private theorem renameKey_no_key (hkey : ¬key.isKey = true) (acc : Entries) :
    renameKey m acc key = .error key.keyFault := by
  unfold renameKey newKey? Model.columnOf
  rw [if_neg hkey]
  rfl

/-- An entry cannot move to what is no key. -/
private theorem renameKey_refused (hkey : key.isKey = true)
    (hrenames : renames m (key, .null) = true)
    (hcolumn : ¬(m.column key).isKey = true) (acc : Entries) :
    renameKey m acc key = .error (m.column key).keyFault := by
  have hnew : newKey? m key = .ok (some (m.column key)) := by
    unfold newKey? Model.columnOf
    rw [if_pos hkey]
    show Except.ok (if renames m (key, .null) = true then some (m.column key)
      else none) = _
    rw [hrenames]
    rfl
  unfold renameKey
  rw [hnew]
  exact if_neg hcolumn

/-- The primary key is left. -/
private theorem renameKey_id (h : m.KeepsId) (hid : m.namesId key = true)
    (acc : Entries) :
    renameKey m acc key = .ok acc := by
  refine renameKey_of_stays (p := (key, .null)) (h.isKey hid) ?_ acc
  rw [Bool.eq_false_iff]
  intro hrenames
  have hother := (namesId_of_renames h hrenames).1
  rw [hid] at hother
  cases hother

/-- Other entries are renamed as if the primary key were not there. -/
theorem others_renameKey (h : m.KeepsId) (hother : m.namesId key = false)
    (acc : Entries) :
    (renameKey m acc key).map (those m.namesOther)
      = renameKey m (those m.namesOther acc) key := by
  have hkey : m.namesOther key = true := by
    unfold Model.namesOther
    rw [hother]
    rfl
  by_cases hk : key.isKey = true
  · by_cases hrenames : renames m (key, .null) = true
    · obtain ⟨-, hcolumn⟩ := namesId_of_renames h hrenames
      have hinto : m.namesOther (m.column key) = true := by
        unfold Model.namesOther
        rw [hcolumn]
        rfl
      by_cases hc : (m.column key).isKey = true
      · rw [renameKey_of_renames (p := (key, .null)) hk hrenames hc,
          renameKey_of_renames (p := (key, .null)) hk hrenames hc]
        show Except.ok (those m.namesOther
          (insert (m.column key) (get key acc) (erase key acc))) = _
        unfold Entries.get
        rw [those_insert h.respects_others, if_pos hinto,
          those_erase h.respects_others, lookup?_those h.respects_others hkey]
      · rw [renameKey_refused hk hrenames hc, renameKey_refused hk hrenames hc]
        rfl
    · rw [Bool.not_eq_true] at hrenames
      rw [renameKey_of_stays (p := (key, .null)) hk hrenames,
        renameKey_of_stays (p := (key, .null)) hk hrenames]
      rfl
  · rw [renameKey_no_key hk, renameKey_no_key hk]
    rfl

/-- And they do not touch it. -/
theorem own_renameKey (h : m.KeepsId) {acc' : Entries}
    (hgo : renameKey m acc key = .ok acc') :
    those m.namesId acc' = those m.namesId acc := by
  by_cases hk : key.isKey = true
  · by_cases hrenames : renames m (key, .null) = true
    · obtain ⟨hother, hcolumn⟩ := namesId_of_renames h hrenames
      by_cases hc : (m.column key).isKey = true
      · rw [renameKey_of_renames (p := (key, .null)) hk hrenames hc] at hgo
        rw [← Except.ok.inj hgo, those_insert h.respects,
          if_neg (by rw [hcolumn]; decide), those_erase h.respects,
          erase_of_new (new_of_those h.respects hother)]
      · rw [renameKey_refused hk hrenames hc] at hgo
        cases hgo
    · rw [Bool.not_eq_true] at hrenames
      rw [renameKey_of_stays (p := (key, .null)) hk hrenames] at hgo
      rw [Except.ok.inj hgo]
  · rw [renameKey_no_key hk] at hgo
    cases hgo

/-- Without the primary key a record is stored as it is with it. -/
theorem toStorage_others (h : m.KeepsId) (es : Entries) :
    (toStorage m es).map (those m.namesOther)
      = toStorage m (those m.namesOther es) := by
  have hrun : ∀ (ks : List Value) (acc : Entries),
      (ks.foldlM (renameKey m) acc).map (those m.namesOther)
        = (ks.filter m.namesOther).foldlM (renameKey m)
          (those m.namesOther acc) := by
    intro ks
    induction ks with
    | nil => exact fun _ => rfl
    | cons key ks ih =>
        intro acc
        rw [List.foldlM_cons, List.filter_cons]
        cases hid : m.namesId key with
        | true =>
            have hkey : m.namesOther key = false := by
              unfold Model.namesOther
              rw [hid]
              rfl
            rw [renameKey_id h hid, hkey, if_neg Bool.false_ne_true]
            exact ih acc
        | false =>
            have hkey : m.namesOther key = true := by
              unfold Model.namesOther
              rw [hid]
              rfl
            have hstep := others_renameKey h hid acc
            rw [hkey, if_pos rfl, List.foldlM_cons, ← hstep]
            cases renameKey m acc key with
            | error e => rfl
            | ok acc' => exact ih acc'
  unfold toStorage
  rw [keys_those]
  exact hrun (keys es) es

/-- What it has for its primary key is stored where it is. -/
theorem toStorage_own (h : m.KeepsId) {data : Entries}
    (hgo : toStorage m es = .ok data) :
    those m.namesId data = those m.namesId es := by
  have hrun : ∀ (ks : List Value) (acc : Entries),
      ks.foldlM (renameKey m) acc = .ok data →
      those m.namesId data = those m.namesId acc := by
    intro ks
    induction ks with
    | nil =>
        intro acc hacc
        rw [Except.ok.inj hacc]
    | cons key ks ih =>
        intro acc hacc
        rw [List.foldlM_cons] at hacc
        obtain ⟨acc', hstep, hrest⟩ := bind_eq_ok hacc
        rw [ih acc' hrest, own_renameKey h hstep]
  exact hrun (keys es) es hgo

end Record

end GraphMapper

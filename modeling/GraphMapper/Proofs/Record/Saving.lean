/-
Records that are saved as they have been read.

The record that a vertex is read as is one of declared fields
(`declared_read`), and under storage keys it has what the vertex has
(`lookup?_inStorage_read`). If these are stored forms, each of them can be
stored again, under the same key (`lookup?_saved`).

The point is that a stored form is no value of its field any more: a date has
become milliseconds, and an object a text. What can be stored again, and as
what, is therefore a matter of the stored form (`FieldType.again`), and the
entries of a record are followed one by one from the vertex to the record and
back.

Chain: `Record.Stored` for single values, `Connector.Records` for what is read;
`Query.Saving` and `Connector.Resaving` do this once and repeatedly.
-/
import GraphMapper.Proofs.Connector.Records
import GraphMapper.Proofs.Record.Writing

namespace GraphMapper

namespace Record

variable {m : Model} {f : Field} {e : Element} {es : Entries}
  {p : Value × Value}

theorem Held.readable (hheld : Held m es) : m.Readable es := by
  refine ⟨hheld.distinct.isMapping, fun p hp _ _ _ =>
    (hheld.plain p hp).noSymbol, fun hnone p hp => ?_⟩
  obtain ⟨f, hf, -⟩ := hheld.owned p hp
  rw [hnone] at hf
  cases hf

/-- Held properties are read as they are. -/
theorem Held.normalize (hheld : Held m es) (key : Value) :
    (Entries.lookup? key es).map Result.normalize
      = Entries.lookup? key es := by
  cases hfound : Entries.lookup? key es with
  | none => rfl
  | some v =>
      obtain ⟨p, hp, -, rfl⟩ := Entries.mem_of_lookup? hfound
      obtain ⟨g, -, -, hstored⟩ := hheld.owned p hp
      exact congrArg some hstored.normalize

/-- An entry in the form in which it is stored when it has been read. -/
def rewritten (m : Model) (p : Value × Value) : Value × Value :=
  (p.1, ((typeFor m p.1).getD .string).again p.2)

/-- What a replacement leaves out of a record. -/
def leftOut (m : Model) : List Value := m.idField :: Reference.fields

/-- The properties of a vertex that has been replaced by its own record. -/
def saved (m : Model) (e : Element) : Entries :=
  ((inStorage m (read m e)).filter fun p => !p.1.isIn (leftOut m)).map
    (rewritten m)

/-- What a vertex is read as is a record of declared fields. -/
theorem declared_read (h : m.Apart) (e : Element) : Declared m (read m e) := by
  refine ⟨distinct_read h e, fun p hp => ?_, fun p hp => ?_⟩
  · rcases mem_read hp with hid | ⟨f, hf, hname⟩
    · rw [hid]
      exact h.plainId
    · rw [hname]
      exact h.plainName f hf
  · rcases mem_read hp with hid | ⟨f, hf, hname⟩
    · exact .inl (congrArg Value.face? hid)
    · by_cases hid : f.name.face? = m.idField.face?
      · exact .inl (by rw [hname, hid])
      · exact .inr ⟨f, h.mem_others hf hid, congrArg Value.face? hname⟩

section

variable (h : m.Apart) (hs : m.Saveable)

include h hs

/-- No field is left out but the primary key. -/
private theorem isIn_leftOut (hf : f ∈ m.others)
    (hkey : p.1.face? = f.key.face?) : p.1.isIn (leftOut m) = false := by
  obtain ⟨face, hface⟩ := h.plainId.faced
  rw [Bool.eq_false_iff]
  intro hin
  obtain ⟨v, hv, hsame⟩ := List.any_eq_true.mp hin
  rcases List.mem_cons.mp hv with rfl | hv
  · have hown := (Value.same_iff_face' hface).mp hsame
    exact hs.own f hf (hkey.symm.trans (hown.trans hface.symm))
  · obtain ⟨hfrom, hto⟩ := hs.ends f hf
    rw [Reference.fields, List.mem_cons, List.mem_singleton] at hv
    rcases hv with rfl | rfl
    · exact hfrom (hkey.symm.trans ((Value.same_iff_face' rfl).mp hsame))
    · exact hto (hkey.symm.trans ((Value.same_iff_face' rfl).mp hsame))

variable (hheld : Held m e.props)

include hheld

/-- Under storage keys the record has what the vertex has. -/
theorem lookup?_inStorage_read (hf : f ∈ m.others) :
    Entries.lookup? f.key (inStorage m (read m e))
      = Entries.lookup? f.key e.props := by
  rw [lookup?_inStorage (h.unmixed hs.storable) (declared_read h e).named hf,
    (shows_read h hs.toUnreserved hheld.readable).fields f hf, hheld.normalize]

/-- What is not left out has the stored form of its field. -/
theorem stored_of_kept (hp : p ∈ inStorage m (read m e))
    (hkept : p.1.isIn (leftOut m) = false) :
    ∃ f ∈ m.others, p.1.face? = f.key.face? ∧ p.1.IsPlain ∧
      typeFor m p.1 = some f.type ∧ IsStored f.type p.2 := by
  have hdeclared := declared_read h e
  have hunmixed := h.unmixed hs.storable
  have hplain := plain_inStorage h hs.storable hdeclared hp
  rcases mem_inStorage hunmixed hdeclared.named hp with hid | ⟨f, hf, hkey⟩
  · obtain ⟨face, hface⟩ := h.plainId.faced
    have hin : p.1.isIn (leftOut m) = true :=
      List.any_eq_true.mpr ⟨m.idField, List.mem_cons_self,
        (Value.same_iff_face' hface).mpr (hid.trans hface)⟩
    rw [hin] at hkept
    cases hkept
  · have hmem := Model.mem_fields_of_others hf
    obtain ⟨face, hface⟩ := (h.plainKey f hmem).faced
    have hfound :=
      (distinct_inStorage hunmixed hdeclared.named).lookup?_of_mem hp
        (hkey.trans hface) hface
    rw [lookup?_inStorage_read h hs hheld hf] at hfound
    obtain ⟨q, hq, hsame, hvalue⟩ := Entries.mem_of_lookup? hfound
    obtain ⟨g, hg, hgkey, hstored⟩ := hheld.owned q hq
    have hqface := (Value.sameKey_iff_face hface).mp hsame
    have hgf : g = f := h.eq_of_key (Model.mem_fields_of_others hg) hmem
      (hgkey.symm.trans (hqface.trans hface.symm))
    rw [hgf, hvalue] at hstored
    exact ⟨f, hf, hkey, hplain, typeFor_key hunmixed hf hkey, hstored⟩

private theorem mem_saved {q : Value × Value} (hq : q ∈ saved m e) :
    ∃ f ∈ m.others, q.1.face? = f.key.face? ∧ q.1.IsPlain ∧
      IsStored f.type q.2 := by
  obtain ⟨p, hp, rfl⟩ := List.mem_map.mp hq
  obtain ⟨hp, hkept⟩ := List.mem_filter.mp hp
  rw [Bool.not_eq_true'] at hkept
  obtain ⟨f, hf, hkey, hplain, htype, hstored⟩ :=
    stored_of_kept h hs hheld hp hkept
  refine ⟨f, hf, hkey, hplain, ?_⟩
  unfold rewritten
  rw [htype]
  exact hstored.again

theorem held_saved : Held m (saved m e) := by
  have hkept : Entries.Distinct ((inStorage m (read m e)).filter fun p =>
      !p.1.isIn (leftOut m)) :=
    (distinct_inStorage (h.unmixed hs.storable)
      (declared_read h e).named).sublist List.filter_sublist
  refine ⟨hkept.congr ?_, fun q hq => ?_, fun q hq => ?_⟩
  · unfold saved Entries.keys
    rw [List.map_map]
    rfl
  · obtain ⟨f, -, -, hplain, -⟩ := mem_saved h hs hheld hq
    exact hplain
  · obtain ⟨f, hf, hkey, -, hstored⟩ := mem_saved h hs hheld hq
    exact ⟨f, hf, hkey, hstored⟩

/-- Each property has been stored again. -/
theorem lookup?_saved (hf : f ∈ m.others) :
    Entries.lookup? f.key (saved m e)
      = (Entries.lookup? f.key e.props).map f.type.again := by
  obtain ⟨face, hface⟩ := (h.plainKey f (Model.mem_fields_of_others hf)).faced
  have hown : ∀ {p : Value × Value}, p.1.sameKey f.key = true →
      p.1.face? = f.key.face? :=
    fun hsame => ((Value.sameKey_iff_face hface).mp hsame).trans hface.symm
  have hkept : ∀ p ∈ inStorage m (read m e), p.1.sameKey f.key = true →
      (!p.1.isIn (leftOut m)) = true := by
    intro p _ hsame
    rw [isIn_leftOut h hs hf (hown hsame)]
    rfl
  have hagain :
      ∀ p ∈ (inStorage m (read m e)).filter fun p => !p.1.isIn (leftOut m),
        p.1.sameKey f.key = true → ((typeFor m p.1).getD .string).again p.2
          = f.type.again p.2 := by
    intro p _ hsame
    rw [typeFor_key (h.unmixed hs.storable) hf (hown hsame)]
    rfl
  show Entries.lookup? f.key
    (((inStorage m (read m e)).filter fun p => !p.1.isIn (leftOut m)).map
      fun p => (p.1, ((typeFor m p.1).getD .string).again p.2)) = _
  rw [Entries.lookup?_map f.type.again hagain, Entries.lookup?_filter hkept,
    lookup?_inStorage_read h hs hheld hf]

end

end Record

end GraphMapper

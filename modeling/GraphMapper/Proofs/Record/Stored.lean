/-
Stored forms that are stored again.

The stored form of a value is a scalar, and reading gives it back as it is
(`normalize_of_serialize`). There is no way back from it to the value that it
was made of, so whoever writes what has been read writes a stored form.
Strings, numbers, truth values and dates then stay what they are. Objects and
arrays are stored as JSON text, and that text is taken for a value of its own:
it becomes the JSON text of a text (`serialize_again`).

# One more layer

So what is saved as it was read is not what it was: each time that happens, the
text of an object gets one more layer of JSON (`FieldType.again`). For the
other types the second time changes nothing (`again_eq_self`), and that is by
the form of what is stored, whatever value it was made of.

Chain: `Record.Coercion` for what is stored; `Record.Saving` uses it for the
fields of a whole record.
-/
import GraphMapper.Record.Coercion
import GraphMapper.Proofs.Failure.Checked
import GraphMapper.Result.Normal

namespace GraphMapper

/-- What a stored form becomes when it is stored again: one more layer of JSON
where the type is stored as JSON, else itself. -/
def FieldType.again (t : FieldType) (v : Value) : Value :=
  match t, v with
  | .object, .text s | .array, .text s => .text (Text.json s)
  | _, v => v

namespace Record

variable {t : FieldType} {v w : Value}

/-- A value has the form in which values of the type are stored. -/
def IsStored (t : FieldType) (v : Value) : Prop :=
  match t with
  | .string | .object | .array => ∃ s, v = .text s
  | .number => (∃ n, v = .int n) ∨ ∃ x, v = .float x
  | .boolean => ∃ b, v = .bool b
  | .date => ∃ d, v = .dateTime d

-- ============================================================ stored forms

private theorem isStored_toNumber (h : toNumber v = .ok w) :
    IsStored .number w := by
  unfold toNumber at h
  split at h
  · exact .inl ⟨_, (Except.ok.inj h).symm⟩
  · exact .inl ⟨_, (Except.ok.inj h).symm⟩
  · exact .inr ⟨_, (Except.ok.inj h).symm⟩
  · split at h
    · cases h
    · dsimp only at h
      split at h
      · exact .inl ⟨_, (Except.ok.inj h).symm⟩
      · exact .inr ⟨_, (Except.ok.inj h).symm⟩
      · cases h

private theorem isStored_toTruth (h : toTruth v = .ok w) :
    IsStored .boolean w := by
  unfold toTruth at h
  split at h
  · exact ⟨_, (Except.ok.inj h).symm⟩
  · exact ⟨_, (Except.ok.inj h).symm⟩
  · exact ⟨_, (Except.ok.inj h).symm⟩
  · split at h
    · exact ⟨_, (Except.ok.inj h).symm⟩
    · cases h

private theorem isStored_ofSeconds {seconds : Int} {micros : Nat}
    (h : ofSeconds seconds micros = .ok w) :
    IsStored .date w := by
  unfold ofSeconds at h
  split at h
  · cases h
  · split at h
    · cases h
    · split at h
      · exact ⟨_, (Except.ok.inj h).symm⟩
      · cases h

private theorem isStored_ofEpochSeconds {x : Binary64}
    (h : ofEpochSeconds x = .ok w) : IsStored .date w := by
  unfold ofEpochSeconds at h
  split at h
  · cases h
  · dsimp only at h
    split at h
    · exact isStored_ofSeconds h
    · split at h
      · exact isStored_ofSeconds h
      · exact isStored_ofSeconds h

private theorem isStored_toDateTime (h : toDateTime v = .ok w) :
    IsStored .date w := by
  unfold toDateTime at h
  split at h
  · exact ⟨_, (Except.ok.inj h).symm⟩
  · exact ⟨_, (Except.ok.inj h).symm⟩
  · split at h
    · exact isStored_ofEpochSeconds h
    · cases h
  · exact isStored_ofEpochSeconds h
  · split at h
    · exact ⟨_, (Except.ok.inj h).symm⟩
    · cases h

/-- What is stored has the form for its type. -/
theorem isStored_of_serialize (h : serialize (some t) v = .ok w) :
    IsStored t w := by
  cases t with
  | object | array =>
      obtain ⟨s, -, hs⟩ := bind_eq_ok h
      exact ⟨s, (Except.ok.inj hs).symm⟩
  | number => exact isStored_toNumber h
  | date => exact isStored_toDateTime h
  | boolean => exact isStored_toTruth h
  | string =>
      obtain ⟨s, -, hs⟩ := bind_eq_ok h
      exact ⟨s, (Except.ok.inj hs).symm⟩

-- ============================================================ stored again

theorem serialize_again (h : IsStored t v) :
    serialize (some t) v = .ok (t.again v) := by
  cases t with
  | object | array | string =>
      obtain ⟨s, rfl⟩ := h
      rfl
  | number => rcases h with ⟨n, rfl⟩ | ⟨x, rfl⟩ <;> rfl
  | boolean =>
      obtain ⟨b, rfl⟩ := h
      rfl
  | date =>
      obtain ⟨d, rfl⟩ := h
      rfl

theorem IsStored.again (h : IsStored t v) : IsStored t (t.again v) :=
  isStored_of_serialize (serialize_again h)

/-- A stored form is in normal form. -/
theorem IsStored.normalize (h : IsStored t v) : Result.normalize v = v := by
  cases t with
  | object | array | string =>
      obtain ⟨s, rfl⟩ := h
      rfl
  | number => rcases h with ⟨n, rfl⟩ | ⟨x, rfl⟩ <;> rfl
  | boolean =>
      obtain ⟨b, rfl⟩ := h
      rfl
  | date =>
      obtain ⟨d, rfl⟩ := h
      rfl

/-- Only objects and arrays are changed. -/
theorem again_eq_self (hobject : t ≠ .object) (harray : t ≠ .array)
    (v : Value) :
    t.again v = v := by
  unfold FieldType.again
  cases t with
  | object => exact absurd rfl hobject
  | array => exact absurd rfl harray
  | _ => rfl

end Record

end GraphMapper

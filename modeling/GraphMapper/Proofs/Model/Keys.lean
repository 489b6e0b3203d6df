/-
Models whose fields can be told apart, under their names and under their
storage keys.

A definition may name a field by any value that can be a key, and give it any
column. The models here have plain names and storage keys: scalars that stay
what they are when results are brought into normal form. No two fields share a
name or a storage key, and no storage key is the name of another field
(`Model.Apart`). So every field is found by its name, and it is plain what it
is stored under.

# From weak to strong

Most statements need only a part of this. `Model.Faced` says that names can be
told apart, `Model.Keyed` adds the storage keys, and `Model.Apart` that the two
do not get in each other's way. The further conditions are on what the keys are
for: that they are not those of a row of results (`Model.Unreserved`), that
records can be stored under them (`Model.Storable`) and read and saved again
(`Model.Saveable`).

Two names are told apart by their faces, since `1`, `1.0` and `True` are one
key of a mapping.

Chain: `Value.Sameness` for faces; used by all that reads a record or writes
one.
-/
import GraphMapper.Model.Basic
import GraphMapper.Proofs.Failure.Checked
import GraphMapper.Proofs.Value.Sameness
import Mathlib.Data.List.Nodup

namespace GraphMapper

-- ================================================================ plain keys

namespace Value

/-- The value has a face and belongs to no vocabulary. -/
structure IsPlain (v : Value) : Prop where
  faced : ∃ f, v.face? = some f
  noSymbol : ∀ s, v ≠ .symbol s

variable {v : Value}

/-- Whether a value is one of the reserved symbols. -/
def isSymbol : Value → Bool
  | .symbol _ => true
  | _ => false

/-- A plain value is a scalar that is no reserved symbol. -/
theorem isPlain_iff :
    v.IsPlain ↔ v.face?.isSome = true ∧ v.isSymbol = false := by
  constructor
  · rintro ⟨hface, hsymbol⟩
    refine ⟨Option.isSome_iff_exists.mpr hface, ?_⟩
    cases v with
    | symbol s => exact absurd rfl (hsymbol s)
    | _ => rfl
  · rintro ⟨hface, hsymbol⟩
    refine ⟨Option.isSome_iff_exists.mp hface, fun s hs => ?_⟩
    rw [hs] at hsymbol
    cases hsymbol

instance : DecidablePred IsPlain :=
  fun _ => decidable_of_iff _ isPlain_iff.symm

/-- What is plain can be a key. -/
theorem IsPlain.isKey (h : v.IsPlain) : v.isKey = true := by
  obtain ⟨f, hf⟩ := h.faced
  exact isKey_of_face hf

/-- It is not the key of ids. -/
theorem IsPlain.ne_idKey (h : v.IsPlain) : v ≠ .idKey := h.noSymbol _

/-- A number counts as given if it is not zero. -/
theorem given_number {b : Bool} {r : Ratio} (h : b = true ↔ r.num ≠ 0) :
    b = decide ((Position.finite r).face ≠ .number 0 ∧
      (Position.finite r).face ≠ .text "") := by
  have hden : r.den ≠ 0 := Nat.pos_iff_ne_zero.mp r.den_pos
  have hzero : mkRat r.num r.den = 0 ↔ r.num = 0 := Rat.mkRat_eq_zero hden
  rw [Bool.eq_iff_iff, h, decide_eq_true_eq]
  simp [Position.face, hzero]

/-- Whether a scalar counts as given is told by its face. -/
theorem isGiven_of_face {f : Face} (h : v.face? = some f) :
    v.isGiven = decide (f ≠ .number 0 ∧ f ≠ .text "") := by
  -- per kind of value; a number is given unless it is zero
  cases v with
  | text s =>
      rw [← Option.some.inj h]
      by_cases hs : s = "" <;> simp [isGiven, hs]
  | symbol r =>
      cases r with
      | fieldType t =>
          rw [← Option.some.inj h]
          cases t <;> decide
      | _ => cases h
  | date d =>
      rw [← Option.some.inj h]
      rfl
  | dateTime t =>
      rw [← Option.some.inj h]
      unfold DateTime.face
      split <;> rfl
  | bool b =>
      rw [← Option.some.inj h]
      refine given_number ?_
      cases b <;> decide
  | int n =>
      rw [← Option.some.inj h]
      refine given_number ?_
      simp [isGiven, Ratio.ofInt]
  | float x =>
      cases x with
      | nan n => cases h
      | infinite negative =>
          rw [← Option.some.inj h]
          cases negative <;> rfl
      | finite negative c e hc =>
          rw [← Option.some.inj h]
          refine given_number ?_
          have hpow : ∀ n, twoPow n ≠ 0 :=
            fun n => Nat.pos_iff_ne_zero.mp (twoPow_pos n)
          cases negative <;> unfold Ratio.scaled <;> split <;>
            simp [isGiven, Binary64.isZero, hpow]
  | _ => cases h

end Value

-- ==================================================================== fields

/-- What the field is stored under: its column if it has one, else its name. -/
def Field.key (f : Field) : Value :=
  if f.column.isGiven then f.column else f.name

namespace Model

variable {m : Model} {f : Field}

/-- The declared fields but the primary key. -/
def others (m : Model) : List Field :=
  m.fields.filter fun f => !f.name.equal m.idField

/-- The fields beside the primary key are fields. -/
theorem mem_fields_of_others (hf : f ∈ m.others) : f ∈ m.fields :=
  (List.mem_filter.mp hf).1

/-- Names and storage keys can be told apart from others, and no two fields
share a name. Storage keys may be shared. -/
structure Faced (m : Model) : Prop where
  facedName : ∀ f ∈ m.fields, ∃ face, f.name.face? = some face
  facedKey : ∀ f ∈ m.fields, ∃ face, f.key.face? = some face
  names : (m.fields.map fun f => f.name.face?).Nodup

/-- Fields can be told apart by their names and by their storage keys, but the
storage key of one may be the name of another. -/
structure Keyed (m : Model) : Prop extends Faced m where
  facedId : ∃ face, m.idField.face? = some face
  keys : (m.fields.map fun f => f.key.face?).Nodup

/-- Names and storage keys are plain besides, and the storage key of one field
is no name of another. -/
structure Apart (m : Model) : Prop extends Keyed m where
  symbolsName : ∀ f ∈ m.fields, ∀ s, f.name ≠ .symbol s
  symbolsKey : ∀ f ∈ m.fields, ∀ s, f.key ≠ .symbol s
  symbolsId : ∀ s, m.idField ≠ .symbol s
  crossed : ∀ f ∈ m.fields, ∀ g ∈ m.fields, f.name.face? ≠ g.name.face? →
    f.key.face? ≠ g.name.face?

/-- All names are plain. -/
theorem Apart.plainName (h : m.Apart) (f : Field) (hf : f ∈ m.fields) :
    f.name.IsPlain :=
  ⟨h.facedName f hf, h.symbolsName f hf⟩

/-- All storage keys are. -/
theorem Apart.plainKey (h : m.Apart) (f : Field) (hf : f ∈ m.fields) :
    f.key.IsPlain :=
  ⟨h.facedKey f hf, h.symbolsKey f hf⟩

/-- The name of the primary key is. -/
theorem Apart.plainId (h : m.Apart) : m.idField.IsPlain :=
  ⟨h.facedId, h.symbolsId⟩

/-- Whether fields can be told apart is decided by looking at each of them. -/
theorem apart_of_plain (plainName : ∀ f ∈ m.fields, f.name.IsPlain)
    (plainKey : ∀ f ∈ m.fields, f.key.IsPlain) (plainId : m.idField.IsPlain)
    (names : (m.fields.map fun f => f.name.face?).Nodup)
    (keys : (m.fields.map fun f => f.key.face?).Nodup)
    (crossed : ∀ f ∈ m.fields, ∀ g ∈ m.fields, f.name.face? ≠ g.name.face? →
      f.key.face? ≠ g.name.face?) : m.Apart where
  facedName := fun f hf => (plainName f hf).faced
  facedKey := fun f hf => (plainKey f hf).faced
  names := names
  facedId := plainId.faced
  keys := keys
  symbolsName := fun f hf => (plainName f hf).noSymbol
  symbolsKey := fun f hf => (plainKey f hf).noSymbol
  symbolsId := plainId.noSymbol
  crossed := crossed

/-- A field is told by the face of its name. -/
theorem Faced.eq_of_name (h : m.Faced) {g : Field} (hf : f ∈ m.fields)
    (hg : g ∈ m.fields) (hname : f.name.face? = g.name.face?) : f = g :=
  List.inj_on_of_nodup_map h.names hf hg hname

/-- A field is found by its name, however that is spelled. -/
theorem Faced.field?_eq (h : m.Faced) (hf : f ∈ m.fields) {key : Value}
    (hkey : key.face? = f.name.face?) : m.field? key = some f := by
  obtain ⟨face, hface⟩ := h.facedName f hf
  rw [hface] at hkey
  unfold field?
  cases hfound : m.fields.find? fun g => g.name.sameKey key with
  | none =>
      have hself : f.name.sameKey key = true :=
        (Value.sameKey_iff_face hkey).mpr hface
      exact absurd hself (List.find?_eq_none.mp hfound f hf)
  | some g =>
      have hsame := List.find?_some hfound
      have hname := (Value.sameKey_iff_face hkey).mp hsame
      rw [h.eq_of_name (List.mem_of_find?_eq_some hfound) hf
        (hname.trans hface.symm)]

/-- The column of a field is found under all that looks like its name. -/
theorem Faced.column_eq (h : m.Faced) (hf : f ∈ m.fields) {key : Value}
    (hkey : key.face? = f.name.face?) : m.column key = f.column := by
  unfold column
  rw [h.field?_eq hf hkey]
  rfl

/-- A field is told by the face of its storage key. -/
theorem Keyed.eq_of_key (h : m.Keyed) {g : Field} (hf : f ∈ m.fields)
    (hg : g ∈ m.fields) (hkey : f.key.face? = g.key.face?) : f = g :=
  List.inj_on_of_nodup_map h.keys hf hg hkey

/-- The column of a field is found under its name. -/
theorem Apart.column_name (h : m.Apart) (hf : f ∈ m.fields) :
    m.column f.name = f.column :=
  h.column_eq hf rfl

/-- And so is its storage key. -/
theorem Apart.storageKey_name (h : m.Apart) (hf : f ∈ m.fields) :
    m.storageKey f.name = f.key := by
  unfold storageKey Field.key
  rw [h.column_name hf]

/-- A name that is a field can be asked for its column. -/
theorem Apart.columnOf_name (h : m.Apart) (hf : f ∈ m.fields) :
    m.columnOf f.name = .ok f.column := by
  unfold columnOf
  rw [if_pos (h.plainName f hf).isKey, h.column_name hf]

/-- The name of another field is not that of the primary key. -/
theorem Apart.face_ne_of_others (h : m.Apart) (hf : f ∈ m.others) :
    f.name.face? ≠ m.idField.face? := by
  obtain ⟨face, hface⟩ := h.plainId.faced
  have hne : ¬f.name.equal m.idField = true := by
    have hkept := (List.mem_filter.mp hf).2
    simpa using hkept
  intro hsame
  exact hne ((Value.equal_iff_face hface).mpr (hsame.trans hface))

/-- What every row holds is no matter of the fields but the primary key. -/
structure Unreserved (m : Model) : Prop where
  name : ∀ f ∈ m.others, f.name.face? ≠ some (.text "id")
  key : ∀ f ∈ m.others, f.key.face? ≠ some (.text "id") ∧
    f.key.face? ≠ some (.text "label")

/-- Nothing that a record is written with is left out or taken for the id: the
primary key has no column, and no other field is stored under its name or under
that of an end of an edge. -/
structure Saveable (m : Model) : Prop extends Unreserved m where
  ends : ∀ f ∈ m.others, f.key.face? ≠ some (.text "from") ∧
    f.key.face? ≠ some (.text "to")
  own : ∀ f ∈ m.others, f.key.face? ≠ m.idField.face?
  column : ∀ f ∈ m.fields, f.name.face? = m.idField.face? →
    f.column.isGiven = false

/-- What every row holds is no matter of the storage keys. -/
def RowFree (m : Model) : Prop :=
  ∀ f ∈ m.others, f.key.face? ≠ some (.text "id") ∧
    f.key.face? ≠ some (.text "label")

/-- Where no key is reserved, none is taken for a part of a row. -/
theorem Unreserved.rowFree (h : m.Unreserved) : m.RowFree := h.key

/-- Every entry of a record has a storage key of its own, and rows have none of
these: the primary key has no column, and no other field is stored under its
name. -/
structure Storable (m : Model) : Prop where
  rowFree : m.RowFree
  own : ∀ f ∈ m.others, f.key.face? ≠ m.idField.face?
  column : ∀ f ∈ m.fields, f.name.face? = m.idField.face? →
    f.column.isGiven = false

/-- Records that can be saved can be stored. -/
theorem Saveable.storable (h : m.Saveable) : m.Storable :=
  ⟨h.key, h.own, h.column⟩

/-- Fields can be told apart, whether a record is under their names or under
their storage keys: the storage key of one is no name of another, nor that of
the primary key, which has no column. -/
structure Unmixed (m : Model) : Prop extends Keyed m where
  crossed : ∀ f ∈ m.fields, ∀ g ∈ m.fields, f.name.face? ≠ g.name.face? →
    f.key.face? ≠ g.name.face?
  own : ∀ f ∈ m.others, f.key.face? ≠ m.idField.face?
  column : ∀ f ∈ m.fields, f.name.face? = m.idField.face? →
    f.column.isGiven = false

/-- Where records can be stored, what is renamed is not mixed with what is
not. -/
theorem Apart.unmixed (h : m.Apart) (hs : m.Storable) : m.Unmixed :=
  ⟨h.toKeyed, h.crossed, hs.own, hs.column⟩

/-- A field is the primary key or another one. -/
theorem Apart.mem_others (h : m.Apart) (hf : f ∈ m.fields)
    (hne : f.name.face? ≠ m.idField.face?) : f ∈ m.others := by
  obtain ⟨face, hface⟩ := h.plainId.faced
  refine List.mem_filter.mpr ⟨hf, ?_⟩
  rw [Bool.not_eq_true', Bool.eq_false_iff]
  exact fun hsame =>
    hne (((Value.equal_iff_face hface).mp hsame).trans hface.symm)

end Model

end GraphMapper

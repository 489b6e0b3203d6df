/-
How the storing of a value can fail.

What cannot be stored for a field of some type is to be rejected: a number, a
date or a truth value that is none, and whatever has no type. But three of the
ways to a stored form do more than they check. A number may stand for
milliseconds that no calendar has a date for, a mapping may have keys that
JSON has no form for, and an integer may be too long to be written out, as a
string or as a part of a JSON text. Then a slip comes out instead of a
rejection (`Outcome`).

For each of the three there is an exact condition, and a result comes out
where it holds. Milliseconds have a date when they lie in the calendar
(`isOk_toDateTime_float_iff`, `isOk_toDateTime_int_iff`). A value of an
application has a text when its integers are short
(`Value.IsApplied.isOk_plain_iff`). It has a JSON text when they are and all
mappings that are written out have keys that JSON has a form for
(`Value.IsApplied.isOk_json_iff`, by induction on how the value is made).
`Coercible` puts the conditions together by the type of the field.

Main statement: `serialize_own_iff`.

Chain: `Value.Printing` for texts, `Record.Milliseconds` for times; the types
of fields are those of `Record.Coercion` among the definitions.
-/
import GraphMapper.Proofs.Failure.Checked
import GraphMapper.Proofs.Record.Milliseconds
import GraphMapper.Proofs.Value.Printing
import GraphMapper.Record.Coercion

namespace GraphMapper

namespace Value

variable {v w : Value} {items : List Value} {es : Entries}

-- ====================================================================== JSON

/-- Keys that JSON has a form for. -/
def isJsonKey : Value → Bool
  | .null | .bool _ | .int _ | .float _ | .text _
  | .symbol (.fieldType _) => true
  | _ => false

/-- A key is written if JSON has a form for it and it is no integer that is
too long. -/
private theorem isOk_jsonKey_iff (k : Value) :
    (jsonKey k).isOk = true ↔ k.isJsonKey = true ∧ k.IsWritable := by
  have hatom (hok : (jsonKey k).isOk = true) (hkey : k.isJsonKey = true)
      (hno : ∀ n, ¬k.Holds n) :
      (jsonKey k).isOk = true ↔ k.isJsonKey = true ∧ k.IsWritable :=
    iff_of_true hok ⟨hkey, fun n hn => absurd hn (hno n)⟩
  cases k with
  | int n => exact isOk_integer.trans (and_iff_right rfl).symm
  | null | bool _ | float _ | text _ =>
      exact hatom rfl rfl fun n hn => nomatch hn
  | symbol s =>
      cases s with
      | fieldType t => exact hatom rfl rfl fun n hn => nomatch hn
      | _ => exact iff_of_false Bool.false_ne_true fun h => nomatch h.1
  | _ => exact iff_of_false Bool.false_ne_true fun h => nomatch h.1

/-- The value is written out as a part of another one: JSON has forms for
lists, tuples and mappings. -/
inductive WrittenOut (w : Value) : Value → Prop where
  | self : WrittenOut w w
  | list {items : List Value} {v : Value} (hv : v ∈ items)
      (h : WrittenOut w v) :
      WrittenOut w (.list items)
  | tuple {items : List Value} {v : Value} (hv : v ∈ items)
      (h : WrittenOut w v) :
      WrittenOut w (.tuple items)
  | map {es : Entries} {e : Value × Value} (he : e ∈ es)
      (h : WrittenOut w e.2) :
      WrittenOut w (.map es)

/-- In all mappings that are written out the keys are such as JSON has a form
for. -/
def HasJsonKeys (v : Value) : Prop :=
  ∀ es, WrittenOut (.map es) v → ∀ e ∈ es, e.1.isJsonKey = true

/-- A row has a JSON text if all its items have one. -/
private theorem isOk_jsonItems (items : List Value) :
    (jsonItems items).isOk = items.all fun v => v.json.isOk := by
  induction items with
  | nil => rfl
  | cons v items ih =>
      rw [jsonItems, List.all_cons, ← ih]
      cases v.json <;> cases jsonItems items <;> rfl

/-- A mapping has one if all keys and all values do. -/
private theorem isOk_jsonEntries (es : Entries) : (jsonEntries es).isOk
    = es.all fun e => (jsonKey e.1).isOk && e.2.json.isOk := by
  induction es with
  | nil => rfl
  | cons e es ih =>
      rw [jsonEntries, List.all_cons, ← ih]
      cases jsonKey e.1 <;> cases e.2.json <;> cases jsonEntries es <;> rfl

/-- A value that JSON has no form for is written as its text, and what has a
form of its own there has a text too. -/
private theorem isOk_jsonAtom (v : Value) :
    (jsonAtom v).isOk = v.literal.isOk := by
  unfold jsonAtom
  split
  · rfl
  · rfl
  · rfl
  · rfl
  · split
    · next s hs =>
        cases v with
        | text t => rfl
        | symbol r => rfl
        | _ => cases hs
    · rw [isOk_map, isOk_plain]

/-- The mappings in a row are those in its items. -/
private theorem hasJsonKeys_items
    (h : ∀ es, WrittenOut (.map es) w ↔ ∃ v ∈ items,
      WrittenOut (.map es) v) :
    HasJsonKeys w ↔ ∀ v ∈ items, HasJsonKeys v := by
  unfold HasJsonKeys
  simp only [h]
  exact ⟨fun hw v hv es hes => hw es ⟨v, hv, hes⟩, fun hw es ⟨v, hv, hes⟩ =>
    hw v hv es hes⟩

/-- Those in a mapping are the mapping itself and those in its values. -/
private theorem hasJsonKeys_map :
    HasJsonKeys (.map es) ↔ ∀ e ∈ es,
      e.1.isJsonKey = true ∧ HasJsonKeys e.2 := by
  constructor
  · exact fun h e he =>
      ⟨h es .self e he, fun more hmore => h more (.map he hmore)⟩
  · intro h more hmore
    cases hmore with
    | self => exact fun e he => (h e he).1
    | map he hmore => exact (h _ he).2 more hmore

/-- What is no list, tuple or mapping is written as an atom, and no keys
are. -/
private theorem isOk_json_iff_of_atom (hv : v.IsApplied)
    (hjson : v.json = jsonAtom v) (hno : ∀ es, ¬WrittenOut (.map es) v) :
    v.json.isOk = true ↔ HasJsonKeys v ∧ v.IsWritable := by
  rw [hjson, isOk_jsonAtom, hv.isOk_literal_iff]
  exact (and_iff_right fun es hes => absurd hes (hno es)).symm

/-- The JSON text of a value of an application fails at keys and at integers
only. -/
theorem IsApplied.isOk_json_iff (h : v.IsApplied) :
    v.json.isOk = true ↔ HasJsonKeys v ∧ v.IsWritable := by
  -- on the value: a container dumps when its items do, a mapping also needs
  -- its keys
  induction h with
  | @bare v h =>
      cases v with
      | null | bool _ | int _ | float _ | text _ | bytes _ | date _
      | dateTime _ =>
          exact isOk_json_iff_of_atom (.bare h) rfl fun es hes => nomatch hes
      | _ => cases h
  | symbol s =>
      exact isOk_json_iff_of_atom (.symbol s) rfl fun es hes => nomatch hes
  | datatype t =>
      exact isOk_json_iff_of_atom (.datatype t) rfl fun es hes => nomatch hes
  | foreign name mark =>
      exact isOk_json_iff_of_atom (.foreign name mark) rfl
        fun es hes => nomatch hes
  | set h =>
      exact isOk_json_iff_of_atom (.set h) rfl fun es hes => nomatch hes
  | list _ ih =>
      rw [json, isOk_map, isOk_jsonItems, List.all_eq_true, isWritable_list,
        hasJsonKeys_items, ← forall₂_and]
      · exact forall₂_congr ih
      · refine fun es => ⟨fun h => ?_, fun ⟨v, hv, h⟩ => .list hv h⟩
        cases h with
        | list hv h => exact ⟨_, hv, h⟩
  | tuple _ ih =>
      rw [json, isOk_map, isOk_jsonItems, List.all_eq_true, isWritable_tuple,
        hasJsonKeys_items, ← forall₂_and]
      · exact forall₂_congr ih
      · refine fun es => ⟨fun h => ?_, fun ⟨v, hv, h⟩ => .tuple hv h⟩
        cases h with
        | tuple hv h => exact ⟨_, hv, h⟩
  | map _ _ _ ih =>
      rw [json, isOk_map, isOk_jsonEntries, List.all_eq_true, isWritable_map,
        hasJsonKeys_map, ← forall₂_and]
      refine forall₂_congr fun e he => ?_
      rw [Bool.and_eq_true, isOk_jsonKey_iff, ih e he]
      exact and_and_and_comm

end Value

namespace Record

open Value

variable {v : Value} {type : Option FieldType}

-- ================================================================= statements

/-- A failure of the library's own: a value is rejected, or the type is
none. -/
def IsOwn (e : Failure) : Prop :=
  ∃ f, e = .fault f ∧ (f.kind = .validation ∨ f.kind = .unsupportedType)

/-- A failure that no rule speaks of. -/
def IsSlip (e : Failure) : Prop := ∃ s, e = .slip s

/-- Storing the value either succeeds or is rejected: milliseconds are in the
calendar, integers that are written out are short enough for that, and what is
stored as JSON has only keys that JSON has a form for. -/
def Coercible (type : Option FieldType) (v : Value) : Prop :=
  match type with
  | some .object | some .array => v.HasJsonKeys ∧ v.IsWritable
  | some .string => v.IsWritable
  | some .date =>
    match v with
    | .int n => InCalendar (.finite (.ofInt n))
    | .float x => ∃ p, x.position? = some p ∧ InCalendar p
    | _ => True
  | _ => True

/-- To be told that a value is none of a kind is a rejection. -/
private theorem isOwn_notA (what : String) (v : Value) : IsOwn (notA what v) :=
  ⟨_, rfl, .inl rfl⟩

/-- A slip is none. -/
private theorem not_isOwn_slip (s : Slip) : ¬IsOwn (.slip s) := by
  rintro ⟨f, hf, -⟩
  cases hf

-- ====================================================================== dates

/-- Seconds that no calendar has are a slip. -/
private theorem failsOnly_ofSeconds (seconds : Int) (micros : Nat) :
    FailsOnly IsSlip (ofSeconds seconds micros) := by
  unfold ofSeconds
  split
  · exact failsOnly_error ⟨_, rfl⟩
  · split
    · exact failsOnly_error ⟨_, rfl⟩
    · split
      · exact failsOnly_ok _
      · exact failsOnly_error ⟨_, rfl⟩

/-- So are those of a number, which may be infinite or none. -/
private theorem failsOnly_ofEpochSeconds (x : Binary64) :
    FailsOnly IsSlip (ofEpochSeconds x) := by
  rw [ofEpochSeconds_eq]
  split
  · exact failsOnly_error ⟨_, rfl⟩
  · exact failsOnly_ofSeconds _ _

/-- With milliseconds nothing but a slip can go wrong. -/
private theorem failsOnly_int (n : Int) :
    FailsOnly IsSlip (toDateTime (.int n)) := by
  unfold toDateTime
  dsimp only
  split
  · exact failsOnly_ofEpochSeconds _
  · exact failsOnly_error ⟨_, rfl⟩

-- ================================================================== all types

/-- What is no number is rejected. -/
private theorem failsOnly_toNumber (v : Value) :
    FailsOnly IsOwn (toNumber v) := by
  unfold toNumber
  split
  · exact failsOnly_ok _
  · exact failsOnly_ok _
  · exact failsOnly_ok _
  · split
    · exact failsOnly_error (isOwn_notA _ _)
    · dsimp only
      split
      · exact failsOnly_ok _
      · exact failsOnly_ok _
      · exact failsOnly_error (isOwn_notA _ _)

/-- What is no truth value is rejected. -/
private theorem failsOnly_toTruth (v : Value) :
    FailsOnly IsOwn (toTruth v) := by
  unfold toTruth
  split
  · exact failsOnly_ok _
  · exact failsOnly_ok _
  · exact failsOnly_ok _
  · split
    · exact failsOnly_ok _
    · exact failsOnly_error (isOwn_notA _ _)

/-- What comes out if a rejection is all that can go wrong, and what comes out
otherwise. -/
structure Outcome (fine : Prop) (r : Checked Value) : Prop where
  own : fine → FailsOnly IsOwn r
  slip : ¬fine → ∃ s, r = .error (.slip s)

/-- Where nothing slips, a rejection is all there is. -/
private theorem outcome_of_own {fine : Prop} {r : Checked Value} (hfine : fine)
    (h : FailsOnly IsOwn r) :
    Outcome fine r := ⟨fun _ => h, fun hno => absurd hfine hno⟩

/-- If nothing but slips can go wrong, all is told by whether there is a
result. -/
private theorem outcome_of_slips {fine : Prop} {r : Checked Value}
    (hok : r.isOk = true ↔ fine) (h : FailsOnly IsSlip r) :
    Outcome fine r := by
  cases r with
  | ok w => exact outcome_of_own (hok.mp rfl) (failsOnly_ok w)
  | error e =>
      obtain ⟨s, rfl⟩ := h e rfl
      exact ⟨fun hfine => (nomatch hok.mpr hfine), fun _ => ⟨s, rfl⟩⟩

/-- A date is stored, or rejected, or its milliseconds are in no calendar. -/
private theorem outcome_toDateTime (v : Value) :
    Outcome (Coercible (some .date) v) (toDateTime v) := by
  cases v with
  | int n =>
      exact outcome_of_slips (isOk_toDateTime_int_iff n) (failsOnly_int n)
  | float x =>
      exact outcome_of_slips (isOk_toDateTime_float_iff x)
        (failsOnly_ofEpochSeconds _)
  | dateTime t => exact outcome_of_own trivial (failsOnly_ok _)
  | date d => exact outcome_of_own trivial (failsOnly_ok _)
  | _ =>
      refine outcome_of_own trivial ?_
      unfold toDateTime
      dsimp only
      split
      · exact failsOnly_ok _
      · exact failsOnly_error (isOwn_notA _ _)

/-- What is stored as a text comes to that text, if there is one. -/
private theorem outcome_text {fine : Prop} {r : Checked String}
    (hok : r.isOk = true ↔ fine) (h : FailsOnly Failure.IsTextless r) :
    Outcome fine (do .ok (.text (← r))) := by
  refine outcome_of_slips ?_ ?_
  · rw [← hok]
    cases r <;> rfl
  · refine FailsOnly.bind (fun e he => ?_) fun s => failsOnly_ok _
    rcases h e he with rfl | rfl
    · exact ⟨_, rfl⟩
    · exact ⟨_, rfl⟩

/-- Storing a value of an application for a field of any type succeeds or is
rejected, if milliseconds are in the calendar, the integers to be written out
are short enough and JSON has a form for the keys that it is to write;
otherwise a slip comes out. -/
theorem serialize_own_iff (h : v.IsApplied) (type : Option FieldType) :
    (FailsOnly IsOwn (serialize type v) ↔ Coercible type v) ∧
      (¬Coercible type v → ∃ s, serialize type v = .error (.slip s)) := by
  have houtcome : Outcome (Coercible type v) (serialize type v) := by
    cases type with
    | none => exact outcome_of_own trivial (failsOnly_error ⟨_, rfl, .inr rfl⟩)
    | some t =>
        cases t with
        | object => exact outcome_text h.isOk_json_iff (failsOnly_json v)
        | array => exact outcome_text h.isOk_json_iff (failsOnly_json v)
        | number => exact outcome_of_own trivial (failsOnly_toNumber v)
        | date => exact outcome_toDateTime v
        | boolean => exact outcome_of_own trivial (failsOnly_toTruth v)
        | string => exact outcome_text h.isOk_plain_iff (failsOnly_plain v)
  refine ⟨⟨fun hown => ?_, houtcome.own⟩, houtcome.slip⟩
  by_contra hno
  obtain ⟨s, hs⟩ := houtcome.slip hno
  exact not_isOwn_slip s (hown _ hs)

/-- Text is stored as a date or rejected, and NaN is neither. -/
theorem serialize_own_iff_date :
    FailsOnly IsOwn (serialize (some .date) (.text "noon")) ∧
      ¬FailsOnly IsOwn (serialize (some .date) (.float (.nan 0))) := by
  refine ⟨(serialize_own_iff (.bare rfl) _).1.mpr trivial, fun hown => ?_⟩
  obtain ⟨s, hs, -⟩ := (serialize_own_iff (.bare rfl) _).1.mp hown
  cases hs

end Record

end GraphMapper

/-
Records for some of the fields.

A record for a list of fields is made of a row that has been asked for these
fields only, and then everything else is left out of it. Both together come to
leaving it out of the whole record (`restricted_whole`): what is shown under a
field is what the row has under its storage key or under its name, the id is
there in every row, and so are the ends of an edge.

# The primary key

The primary key is not asked for, since the id is there anyway. If nothing else
is to be read, nothing is asked for, and that is to ask for everything: then a
property that has the name of the primary key is taken for the id. The two rows
agree on that as well if both are asked for something or both are not, or if
there is no such property (`IdKept`).

Main statements: `restricted_whole`, `agree_of_holds`.
-/
import GraphMapper.Proofs.Record.Whole

namespace GraphMapper

open Entries (lookup?)

variable {m : Model} {f : Field} {es es' acc acc' item item' : Entries}
  {F : List Value} {key source name : Value} {face : Face}

-- ================================================================ restriction

/-- Whether a name is among others is told by its face. -/
theorem Value.isIn_of_face {v w : Value} (hv : v.face? = some face)
    (hw : w.face? = some face) (names : List Value) :
    v.isIn names = w.isIn names := by
  unfold isIn
  refine congrArg (names.any ·) (funext fun n => ?_)
  rw [Bool.eq_iff_iff, same_iff_face hv, same_iff_face hw]

namespace Record

/-- The entries of a record that are asked for. -/
def restricted (F : List Value) (es : Entries) : Entries :=
  es.filter fun p => p.1.isIn F

private theorem lookup?_restricted (hkey : key.face? = some face)
    (hin : key.isIn F = true) (es : Entries) :
    lookup? key (restricted F es) = lookup? key es := by
  refine Entries.lookup?_filter fun p _ hsame => ?_
  rw [Value.isIn_of_face ((Value.sameKey_iff_face hkey).mp hsame) hkey, hin]

/-- What is copied from two rows is the same under the names that are asked
for, if the rows agree. -/
private theorem restricted_copied (hkey : key.face? = some face)
    (hacc : restricted F acc = restricted F acc')
    (hsource : key.isIn F = true → lookup? source es = lookup? source es') :
    restricted F (copied es key source acc)
      = restricted F (copied es' key source acc') := by
  -- a key outside the names changes nothing that is kept
  cases hin : key.isIn F with
  | false =>
      have hunseen : ∀ es acc : Entries,
          restricted F (copied es key source acc) = restricted F acc := by
        intro es acc
        rcases copied_or es key source acc with hsame | ⟨hnew, hhas⟩
        · rw [hsame]
        · rw [copied_of_new hnew hhas]
          unfold restricted
          rw [List.filter_append, List.filter_cons_of_neg (by simp [hin]),
            List.filter_nil, List.append_nil]
      rw [hunseen, hunseen, hacc]
  | true =>
      have hhas : Entries.has key acc = Entries.has key acc' := by
        rw [Entries.has_eq_isSome, Entries.has_eq_isSome,
          ← lookup?_restricted hkey hin acc,
          ← lookup?_restricted hkey hin acc', hacc]
      have hsources : Entries.has source es = Entries.has source es' := by
        rw [Entries.has_eq_isSome, Entries.has_eq_isSome, hsource hin]
      have hget : Entries.get source es = Entries.get source es' := by
        unfold Entries.get
        rw [hsource hin]
      rcases copied_or es key source acc with hsame | ⟨hnew, hthere⟩
      · rcases copied_or es' key source acc' with hsame' | ⟨hnew', hthere'⟩
        · rw [hsame, hsame', hacc]
        · rw [copied_of_new (hhas.trans hnew') (hsources.trans hthere'),
            copied_of_new hnew' hthere', hget]
          unfold restricted at hacc ⊢
          rw [List.filter_append, List.filter_append, hacc]
      · rw [copied_of_new hnew hthere,
          copied_of_new (hhas ▸ hnew) (hsources ▸ hthere), hget]
        unfold restricted at hacc ⊢
        rw [List.filter_append, List.filter_append, hacc]

/-- What fields read is the same under the names that are asked for, if it is
for these fields. -/
private theorem restricted_readFields {fields : List Field}
    (h : ∀ f ∈ fields, f.name.isIn F = true → stored? es f = stored? es' f) :
    restricted F (readFields es fields)
      = restricted F (readFields es' fields) := by
  induction fields with
  | nil => rfl
  | cons f fields ih =>
      have hrest := ih fun g hg => h g (List.mem_cons_of_mem _ hg)
      have hunseen : ∀ es : Entries, f.name.isIn F = false →
          restricted F (readFields es (f :: fields))
            = restricted F (readFields es fields) := by
        intro es hout
        cases hv : stored? es f with
        | none => rw [readFields_of_none hv]
        | some v =>
            rw [readFields_of_some hv]
            exact List.filter_cons_of_neg (by simp [hout])
      cases hin : f.name.isIn F with
      | false => rw [hunseen es hin, hunseen es' hin, hrest]
      | true =>
          have hsame := h f List.mem_cons_self hin
          cases hv : stored? es f with
          | none =>
              rw [readFields_of_none hv,
                readFields_of_none (hsame.symm.trans hv), hrest]
          | some v =>
              rw [readFields_of_some hv,
                readFields_of_some (hsame.symm.trans hv)]
              unfold restricted at hrest ⊢
              rw [List.filter_cons_of_pos (by simp [hin]),
                List.filter_cons_of_pos (by simp [hin]), hrest]

theorem toRecord_eq (h : m.Faced) (fields : Option (List Value))
    (item : Entries) :
    Act.toRecord m fields (.map item) = .ok (.map (match fields with
      | some F => restricted F (whole m item)
      | none => whole m item)) := by
  unfold Act.toRecord
  rw [fromStorage_eq h]
  cases fields <;> rfl

-- ================================================================== agreement

/-- Two rows are read alike under the names that are asked for. -/
structure Agree (m : Model) (F : List Value)
    (item item' : Entries) : Prop where
  fields : ∀ f ∈ m.fields, f.name.isIn F = true →
    stored? item f = stored? item' f
  id : lookup? (.text "id") item = lookup? (.text "id") item'
  ends : m.isEdge = true → ∀ s ∈ ["from", "to"],
    lookup? (.text s) item = lookup? (.text s) item'

theorem restricted_whole (hid : m.idField.face? = some face)
    (h : Agree m F item item') :
    restricted F (whole m item) = restricted F (whole m item') := by
  have hwithId : restricted F
      (copied item m.idField (.text "id") (readFields item m.fields))
        = restricted F (copied item' m.idField (.text "id")
          (readFields item' m.fields)) :=
    restricted_copied hid (restricted_readFields h.fields) fun _ => h.id
  unfold whole
  cases hedge : m.isEdge with
  | false => exact hwithId
  | true =>
      refine restricted_copied rfl (restricted_copied rfl hwithId fun _ =>
        ?_) fun _ => ?_
      · exact h.ends hedge "from" (by simp)
      · exact h.ends hedge "to" (by simp)

end Record

-- =================================================================== the keys

namespace Query

/-- Each name but that of the primary key is asked for under its storage
key. -/
theorem storageKeys_eq (hkeys : ∀ n ∈ F, n.isKey = true) :
    storageKeys m F
      = .ok ((F.filter fun n => !n.equal m.idField).map m.storageKey) := by
  refine mapM_eq_ok fun n hn => ?_
  unfold keyOf Model.columnOf
  rw [if_pos (hkeys n (List.mem_filter.mp hn).1)]
  rfl

/-- The keys that a list of fields is read under. -/
def keysFor (m : Model) (F : List Value) : List Value :=
  (F.filter fun n => !n.equal m.idField).map m.storageKey

/-- The names that are asked for are nothing but the primary key. -/
def OnlyId (m : Model) (F : List Value) : Prop :=
  ∀ n ∈ F, n.equal m.idField = true

private theorem keysFor_eq_nil : keysFor m F = [] ↔ OnlyId m F := by
  unfold keysFor OnlyId
  rw [List.map_eq_nil_iff, List.filter_eq_nil_iff]
  simp

/-- What is asked for with a list of fields: the storage keys of declared
fields, and other names. -/
private theorem asks_keysFor (h : m.Apart) (hask : Asks (keysFor m F) face) :
    OnlyId m F ∨ ∃ n ∈ F,
        n.equal m.idField = false ∧
        ((∃ f ∈ m.fields, f.name.face? = n.face? ∧ f.key.face? = some face) ∨
      (∀ f ∈ m.fields, f.name.face? ≠ n.face?) ∧ n.face? = some face) := by
  rcases hask with hnil | ⟨k, hk, hface⟩
  · exact .inl (keysFor_eq_nil.mp hnil)
  · obtain ⟨n, hn, rfl⟩ := List.mem_map.mp hk
    obtain ⟨hn, hne⟩ := List.mem_filter.mp hn
    exact .inr ⟨n, hn, by simpa using hne, h.face_storageKey hface⟩

/-- A declared field that is named is asked for. -/
theorem asks_keysFor_of_mem (h : m.Apart) (hf : f ∈ m.others)
    (hin : f.name.isIn F = true) (hface : f.key.face? = some face) :
    Asks (keysFor m F) face := by
  have hmem := Model.mem_fields_of_others hf
  obtain ⟨nameFace, hnameFace⟩ := (h.plainName f hmem).faced
  obtain ⟨idFace, hidFace⟩ := h.plainId.faced
  obtain ⟨n, hn, hsame⟩ := List.any_eq_true.mp hin
  have hname : n.face? = f.name.face? := by
    rw [hnameFace]
    exact (Value.same_iff_face hnameFace).mp hsame
  refine .inr ⟨m.storageKey n,
    List.mem_map_of_mem (List.mem_filter.mpr ⟨hn, ?_⟩), ?_⟩
  · rw [Bool.not_eq_true', Bool.eq_false_iff, ne_eq,
      Value.equal_iff_face hidFace, hname, ← hidFace]
    exact h.face_ne_of_others hf
  · rw [h.face_storageKey_of hmem hname.symm, hface]

/-- The name of a field is asked for by no other than its own storage key. -/
private theorem not_asks_name (h : m.Apart) (hf : f ∈ m.others)
    (hin : f.name.isIn F = true) (hface : f.name.face? = some face)
    (hne : f.key.face? ≠ some face) :
    ¬Asks (readKeys m) face ∧ ¬Asks (keysFor m F) face := by
  have hmem := Model.mem_fields_of_others hf
  -- a field that is stored under the name of this one is this one
  have hcrossed : ∀ d ∈ m.fields, d.key.face? ≠ some face := by
    intro d hd hkey
    by_cases hname : d.name.face? = f.name.face?
    · rw [h.eq_of_name hd hmem hname] at hkey
      exact hne hkey
    · exact h.crossed d hd f hmem hname (hkey.trans hface.symm)
  refine ⟨?_, fun hask => ?_⟩
  · rintro (hnil | ⟨k, hk, hkey⟩)
    · rw [readKeys_eq_nil] at hnil
      rw [hnil] at hf
      cases hf
    · obtain ⟨d, hd, rfl⟩ := List.mem_map.mp hk
      exact hcrossed d (Model.mem_fields_of_others hd) hkey
  · rcases asks_keysFor h hask with honly
      | ⟨n, -, -, ⟨d, hd, -, hkey⟩ | ⟨hundeclared, hn⟩⟩
    · obtain ⟨n, hn, hsame⟩ := List.any_eq_true.mp hin
      obtain ⟨idFace, hidFace⟩ := h.plainId.faced
      have hname := (Value.same_iff_face hface).mp hsame
      have hid := (Value.equal_iff_face hidFace).mp (honly n hn)
      exact h.face_ne_of_others hf (by rw [hface, hidFace, ← hname, hid])
    · exact hcrossed d hd hkey
    · exact hundeclared f hmem (hface.trans hn.symm)

/-- The name of the primary key is asked for only with everything else. -/
private theorem asks_id (h : m.Apart) (hs : m.Storable)
    (hid : m.idField.face? = some face) :
    (Asks (readKeys m) face ↔ m.others = []) ∧
      (Asks (keysFor m F) face ↔ OnlyId m F) := by
  refine ⟨⟨?_, fun hnil => .inl (readKeys_eq_nil.mpr hnil)⟩, fun hask =>
      ?_, fun honly =>
    .inl (keysFor_eq_nil.mpr honly)⟩
  · rintro (hnil | ⟨k, hk, hkey⟩)
    · exact readKeys_eq_nil.mp hnil
    · obtain ⟨d, hd, rfl⟩ := List.mem_map.mp hk
      exact absurd (hkey.trans hid.symm) (hs.own d hd)
  · rcases asks_keysFor h hask with honly | ⟨n, -, hne, hstored⟩
    · exact honly
    · have hother : n.face? ≠ some face := by
        rw [Bool.eq_false_iff, ne_eq, Value.equal_iff_face hid] at hne
        exact hne
      rcases hstored with ⟨d, hd, hname, hkey⟩ | ⟨-, hn⟩
      · refine absurd (hkey.trans hid.symm) (hs.own d (h.mem_others hd ?_))
        rw [hname, hid]
        exact hother
      · exact absurd hn hother

end Query

-- ================================================================= projection

namespace Record

open Query Result

variable {e : Element} {refs : Option (Value × Value)}

/-- What the primary key could be taken for is there for both rows, or for
neither. -/
def IdKept (m : Model) (F : List Value) (e : Element) : Prop :=
  m.idField.isIn F = true → (m.others = [] ↔ OnlyId m F) ∨
    ∀ p ∈ e.props, p.1.face? ≠ m.idField.face?

/-- The row of an element for all fields and the one for some of them agree on
these. -/
theorem agree_of_holds (h : m.Apart) (hs : m.Storable) (hid : IdKept m F e)
    (hrefs : refs.isSome = m.isEdge) (hall : Holds e (readKeys m) refs item)
    (hsome : Holds e (keysFor m F) refs item') : Agree m F item item' := by
  obtain ⟨idFace, hidFace⟩ := h.plainId.faced
  refine ⟨fun f hf hin => ?_, hall.id.trans hsome.id.symm,
    fun hedge s hs => ?_⟩
  · obtain ⟨nameFace, hname⟩ := (h.plainName f hf).faced
    obtain ⟨keyFace, hkey⟩ := (h.plainKey f hf).faced
    by_cases hpk : f.name.face? = m.idField.face?
    · -- the primary key reads its name
      have hidIn : m.idField.isIn F = true := by
        rw [Value.isIn_of_face hidFace (hpk.trans hidFace), hin]
      have hsame : lookup? f.name item = lookup? f.name item' := by
        refine hall.agree hsome (hpk.trans hidFace) fun _ => ?_
        obtain ⟨hasksAll, hasksSome⟩ := asks_id (F := F) h hs hidFace
        rcases hid hidIn with hiff | hnone
        · by_cases hempty : m.others = []
          · rw [lookup?_chosen_of_asks (hpk.trans hidFace)
              (hasksAll.mpr hempty), lookup?_chosen_of_asks (hpk.trans hidFace)
                (hasksSome.mpr (hiff.mp hempty))]
          · rw [lookup?_chosen_of_not_asks (hpk.trans hidFace) fun hask =>
              hempty (hasksAll.mp hask),
                  lookup?_chosen_of_not_asks (hpk.trans hidFace) fun hask =>
                hempty (hiff.mpr (hasksSome.mp hask))]
        · have hlost : ∀ keys, lookup? f.name (e.chosen keys) = none :=
              fun keys =>
            Entries.lookup?_eq_none (hpk.trans hidFace) fun p hp hface =>
              hnone p (List.mem_filter.mp hp).1 (hface.trans hidFace.symm)
          rw [hlost, hlost]
      unfold stored?
      rw [hs.column f hf hpk, if_neg Bool.false_ne_true,
        if_neg Bool.false_ne_true, hsame]
    · have hf' := h.mem_others hf hpk
      have hkeySame : lookup? f.key item = lookup? f.key item' := by
        refine hall.agree hsome hkey fun _ => ?_
        rw [lookup?_chosen_of_asks hkey (asks_readKeys hf' hkey),
          lookup?_chosen_of_asks hkey (asks_keysFor_of_mem h hf' hin hkey)]
      have hnameSame : lookup? f.name item = lookup? f.name item' := by
        by_cases hsame : f.key.face? = some nameFace
        · rw [Entries.lookup?_congr hname hsame,
            Entries.lookup?_congr hname hsame, hkeySame]
        · refine hall.agree hsome hname fun _ => ?_
          obtain ⟨hall', hsome'⟩ := not_asks_name h hf' hin hname hsame
          rw [lookup?_chosen_of_not_asks hname hall',
            lookup?_chosen_of_not_asks hname hsome']
      unfold stored?
      by_cases hcolumn : f.column.isGiven = true
      · have hcol : f.key = f.column := if_pos hcolumn
        rw [if_pos hcolumn, if_pos hcolumn, ← hcol, hkeySame, hnameSame]
      · rw [if_neg hcolumn, if_neg hcolumn, hnameSame]
  · refine hall.agree hsome (show (Value.text s).face? = _ from rfl)
      fun hown => ?_
    rw [hrefs, hedge] at hown
    simp only [List.mem_cons, List.not_mem_nil, or_false] at hs
    rcases hs with rfl | rfl
    · exact absurd rfl (hown "from" (by decide))
    · exact absurd rfl (hown "to" (by decide))

end Record

end GraphMapper

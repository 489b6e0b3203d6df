/-
What a whole record shows.

A row is asked for the storage keys of all declared fields but the primary key,
and read as a record (`whole`). Under each of these fields there is the
property of the element, unless its storage key is one of the names that rows
use for themselves (`lookup?_whole_field`). Under the primary key there is the
id (`lookup?_whole_id`), unless the row has a property of that name. It has not
been asked for one; but a model with no other fields asks for all of them.

What is asked for is also what records are sorted by (`Model.Apart.reaches`).

Main statement: `lookup?_whole`.

Chain: `Result.Items` for the row, `Record.Ends` for references,
`Query.Sorting` for keys that are sorted by; `Record.Projection` and
`Connector.Ordering` use what a record shows.
-/
import GraphMapper.Proofs.Query.Sorting
import GraphMapper.Proofs.Record.Ends
import GraphMapper.Proofs.Result.Items

namespace GraphMapper

open Entries (lookup?)

variable {m : Model} {f : Field} {e : Element} {es acc item : Entries}
  {refs : Option (Value × Value)} {key source name v : Value} {face : Face}

namespace Record

-- ===================================================================== copies

/-- A key that is not there comes to the end. -/
theorem copied_of_new (hnew : Entries.has key acc = false)
    (hsource : Entries.has source es = true) :
    copied es key source acc = acc ++ [(key, Entries.get source es)] := by
  unfold copied
  rw [hnew, hsource]
  refine Entries.insert_of_new (fun e he => ?_) _
  rw [Bool.eq_false_iff]
  intro hsame
  rw [Entries.has, Bool.eq_false_iff] at hnew
  exact hnew (List.any_eq_true.mpr ⟨e, he, hsame⟩)

/-- What is not copied leaves things as they are. -/
theorem copied_or (es : Entries) (key source : Value) (acc : Entries) :
    copied es key source acc = acc ∨ Entries.has key acc = false ∧
      Entries.has source es = true := by
  unfold copied
  cases Entries.has key acc with
  | true => exact .inl rfl
  | false =>
      cases Entries.has source es with
      | true => exact .inr ⟨rfl, rfl⟩
      | false => exact .inl rfl

/-- What is there already is not copied over. -/
private theorem lookup?_copied_of_some (hkey : key.face? = some face)
    (hv : lookup? key acc = some v) (es : Entries) (other source : Value) :
    lookup? key (copied es other source acc) = some v := by
  rcases copied_or es other source acc with hsame | ⟨hnew, hsource⟩
  · rw [hsame, hv]
  · have hne : other.face? ≠ some face := by
      intro hother
      rw [Entries.has_eq_isSome, Entries.lookup?_congr hother hkey, hv] at hnew
      cases hnew
    unfold copied
    rw [hnew, hsource]
    exact (Entries.lookup?_insert_of_ne hkey hne _ acc).trans hv

/-- If there is nothing yet, or the same, what is copied is there. -/
private theorem lookup?_copied (hkey : key.face? = some face)
    (hv : lookup? source es = some v)
    (hacc : lookup? key acc = none ∨ lookup? key acc = some v) :
    lookup? key (copied es key source acc) = some v := by
  rcases hacc with hnone | hsome
  · unfold copied
    rw [Entries.has_eq_isSome, hnone, Entries.has_eq_isSome, hv]
    show lookup? key (Entries.insert key (Entries.get source es) acc) = _
    rw [Entries.lookup?_insert_self hkey]
    unfold Entries.get
    rw [hv]
    rfl
  · exact lookup?_copied_of_some hkey hsome es key source

/-- The whole record that a row is read as. -/
def whole (m : Model) (item : Entries) : Entries :=
  let withId := copied item m.idField (.text "id") (readFields item m.fields)
  if m.isEdge then
    copied item (.text "to") (.text "to")
      (copied item (.text "from") (.text "from") withId)
  else withId

/-- The ends of an edge are not put in the place of anything. -/
private theorem lookup?_whole_of_some (hkey : key.face? = some face)
    (hv : lookup? key (copied item m.idField (.text "id")
      (readFields item m.fields)) = some v) :
    lookup? key (whole m item) = some v := by
  unfold whole
  split
  · exact lookup?_copied_of_some hkey
      (lookup?_copied_of_some hkey hv _ _ _) _ _ _
  · exact hv

end Record

-- =================================================================== the keys

namespace Model

variable {n : Value}

/-- What a name is stored under is told by its face: it is the storage key of a
declared field of that name, or the name itself. -/
theorem Apart.face_storageKey (h : m.Apart)
    (hface : (m.storageKey n).face? = some face) :
    (∃ f ∈ m.fields, f.name.face? = n.face? ∧ f.key.face? = some face) ∨
      (∀ f ∈ m.fields, f.name.face? ≠ n.face?) ∧ n.face? = some face := by
  by_cases hdeclared : ∃ f ∈ m.fields, f.name.face? = n.face?
  · obtain ⟨f, hf, hname⟩ := hdeclared
    refine .inl ⟨f, hf, hname, ?_⟩
    unfold storageKey at hface
    rw [h.column_eq hf hname.symm] at hface
    unfold Field.key
    split at hface
    · next hgiven => rwa [if_pos hgiven]
    · next hgiven => rwa [if_neg hgiven, hname]
  · push Not at hdeclared
    refine .inr ⟨hdeclared, ?_⟩
    have hnone : m.field? n = none := by
      refine List.find?_eq_none.mpr fun f hf hsame => hdeclared f hf ?_
      exact Value.face_eq_of_sameKey hsame
    unfold storageKey column at hface
    rw [hnone] at hface
    exact hface

/-- The storage key of the name of a declared field. -/
theorem Apart.face_storageKey_of (h : m.Apart) (hf : f ∈ m.fields)
    (hname : f.name.face? = n.face?) :
    (m.storageKey n).face? = f.key.face? := by
  unfold storageKey Field.key
  rw [h.column_eq hf hname.symm]
  split
  · rfl
  · exact hname.symm

end Model

namespace Query

theorem readKeys_eq_nil : readKeys m = [] ↔ m.others = [] :=
  List.map_eq_nil_iff

theorem asks_readKeys (hf : f ∈ m.others) (hface : f.key.face? = some face) :
    Asks (readKeys m) face := .inr ⟨f.key, List.mem_map_of_mem hf, hface⟩

end Query

namespace Model

/-- The name is that of the primary key or of a declared field. -/
def Declares (m : Model) (name : Value) : Prop :=
  name.face? = m.idField.face? ∨ ∃ f ∈ m.fields, f.name.face? = name.face?

private theorem Apart.conditionKey_id (h : m.Apart)
    (hname : name.face? = m.idField.face?) :
    m.conditionKey name = .idKey := by
  obtain ⟨idFace, hidFace⟩ := h.plainId.faced
  exact if_pos ((Value.equal_iff_face hidFace).mpr (hname.trans hidFace))

/-- Another declared field has its storage key in conditions. -/
private theorem Apart.face_conditionKey (h : m.Apart) (hf : f ∈ m.others)
    (hname : f.name.face? = name.face?) :
    (m.conditionKey name).face? = f.key.face? := by
  obtain ⟨idFace, hidFace⟩ := h.plainId.faced
  have hkey : m.conditionKey name = m.storageKey name := if_neg fun hsame =>
    h.face_ne_of_others hf
      (hname.trans
        (((Value.equal_iff_face hidFace).mp hsame).trans hidFace.symm))
  rw [hkey, h.face_storageKey_of (mem_fields_of_others hf) hname]

/-- A row has what it is sorted by, if its field is asked for. -/
theorem Apart.reaches (h : m.Apart) {keys : List Value}
    (hname : m.Declares name)
    (hasks : ∀ f ∈ m.others, f.name.face? = name.face? → ∀ face,
      f.key.face? = some face →
      Asks keys face) : m.Reaches keys name := by
  by_cases hid : name.face? = m.idField.face?
  · exact .inl (h.conditionKey_id hid)
  · obtain ⟨f, hf, hsame⟩ := hname.resolve_left hid
    obtain ⟨keyFace, hkey⟩ := (h.plainKey f hf).faced
    have hother : f ∈ m.others := h.mem_others hf (hsame ▸ hid)
    exact .inr ⟨keyFace, (h.face_conditionKey hother hsame).trans hkey,
      hasks f hother hsame keyFace hkey⟩

theorem Apart.isOk_sortKey (h : m.Apart) (hname : m.Declares name) :
    (Query.sortKey m name).isOk = true := by
  have hkey : name.isKey = true := by
    rcases hname with hid | ⟨f, hf, hsame⟩
    · obtain ⟨face, hface⟩ := h.plainId.faced
      exact Value.isKey_of_face (hid.trans hface)
    · obtain ⟨face, hface⟩ := (h.plainName f hf).faced
      exact Value.isKey_of_face (hsame.symm.trans hface)
  have hcolumn : m.columnOf name = .ok (m.column name) := if_pos hkey
  unfold Query.sortKey Query.keyOf
  rw [hcolumn]
  split <;> rfl

end Model

-- ================================================================= what shows

namespace Record

open Query Result

/-- Under a field there is the property, if rows have no other use for its
storage key. -/
theorem lookup?_whole_field (h : m.Apart) (hf : f ∈ m.others)
    (hname : f.name.face? = name.face?)
    (hfree : ∀ s ∈ ownNames m.isEdge, f.key.face? ≠ some (.text s))
    (hrefs : refs.isSome = m.isEdge)
    (hitem : Holds e (readKeys m) refs item)
    (hv : e.at? (m.conditionKey name) = some v) :
    lookup? name (whole m item) = some (normalize v) := by
  have hmem := Model.mem_fields_of_others hf
  obtain ⟨nameFace, hnameFace⟩ := (h.plainName f hmem).faced
  obtain ⟨keyFace, hkey⟩ := (h.plainKey f hmem).faced
  have hcondition := (h.face_conditionKey hf hname).trans hkey
  have hprop : lookup? f.key e.props = some v := by
    rw [Entries.lookup?_congr hkey hcondition,
      ← Element.at?_of_face hcondition, hv]
  have hown : ∀ s ∈ ownNames refs.isSome, keyFace ≠ .text s := by
    intro s hs heq
    rw [hrefs] at hs
    exact hfree s hs (hkey.trans (congrArg some heq))
  -- the row holds the stored value under the column, and the record copies it
  -- to the name
  have hread : lookup? f.key item = some (normalize v) := by
    rw [hitem.others hkey hown,
      lookup?_chosen_of_asks hkey (asks_readKeys hf hkey), hprop]
    rfl
  have hstored : stored? item f = some (normalize v) := by
    unfold stored?
    unfold Field.key at hread
    split
    · next hcolumn =>
      rw [if_pos hcolumn] at hread
      rw [hread]
      rfl
    · next hcolumn =>
      rw [if_neg hcolumn] at hread
      rw [hread]
      rfl
  rw [Entries.lookup?_congr (hname.symm.trans hnameFace) hnameFace]
  refine lookup?_whole_of_some hnameFace
    (lookup?_copied_of_some hnameFace ?_ _ _ _)
  rw [lookup?_readFields h.toFaced hmem, hstored]

/-- Nothing that is read is taken for the id: the primary key has no column,
and no property that is asked for has its name, which is not that of an end of
an edge. -/
structure OwnId (m : Model) (e : Element) : Prop where
  column : ∀ f ∈ m.fields, f.name.face? = m.idField.face? →
    f.column.isGiven = false
  ends : m.isEdge = true → ∀ s ∈ ["from", "to"],
    m.idField.face? ≠ some (.text s)
  unasked : ∀ face, m.idField.face? = some face → Asks (readKeys m) face →
    ∀ p ∈ e.props, p.1.face? ≠ some face

/-- A row has nothing but the id under the name of the primary key. -/
private theorem lookup?_item_id (hid : m.idField.face? = some face)
    (hown : OwnId m e)
    (hrefs : refs.isSome = m.isEdge) (hitem : Holds e (readKeys m) refs item) :
    lookup? m.idField item = none ∨
      lookup? m.idField item = some (normalize e.id) := by
  have hat : ∀ s : String,
      face = .text s → lookup? m.idField item = lookup? (.text s) item :=
    fun s hs => Entries.lookup?_congr (hid.trans (congrArg some hs)) rfl item
  -- the key is a name of its own, or one of the names every row has
  by_cases hfree : ∀ s ∈ ownNames refs.isSome, face ≠ .text s
  · left
    rw [hitem.others hid hfree]
    by_cases hasks : Asks (readKeys m) face
    · rw [lookup?_chosen_of_asks hid hasks,
        Entries.lookup?_eq_none hid (hown.unasked face hid hasks)]
      rfl
    · rw [lookup?_chosen_of_not_asks hid hasks]
      rfl
  · push Not at hfree
    obtain ⟨s, hs, rfl⟩ := hfree
    rw [hat s rfl]
    unfold ownNames at hs
    cases hedge : m.isEdge with
    | false =>
        rw [hrefs, hedge] at hs
        simp only [Bool.false_eq_true, if_false, List.mem_cons,
          List.not_mem_nil, or_false] at hs
        rcases hs with rfl | rfl
        · exact .inr hitem.id
        · exact .inl hitem.label
    | true =>
        have hends := hown.ends hedge
        rw [hedge] at hrefs
        rw [hrefs] at hs
        simp only [if_true, List.mem_cons, List.not_mem_nil, or_false] at hs
        rcases hs with rfl | rfl | rfl | rfl | rfl | rfl
        · exact .inr hitem.id
        · exact .inl hitem.label
        · exact absurd hid (hends "from" (by simp))
        · exact absurd hid (hends "to" (by simp))
        · exact .inl (hitem.inward hrefs)
        · exact .inl (hitem.outward hrefs)

/-- Under the primary key there is the id. -/
theorem lookup?_whole_id (h : m.Apart) (hname : name.face? = m.idField.face?)
    (hown : OwnId m e) (hrefs : refs.isSome = m.isEdge)
    (hitem : Holds e (readKeys m) refs item) :
    lookup? name (whole m item) = some (normalize e.id) := by
  obtain ⟨idFace, hid⟩ := h.plainId.faced
  have hread : lookup? m.idField (readFields item m.fields) = none
      ∨ lookup? m.idField (readFields item m.fields)
        = some (normalize e.id) := by
    by_cases hdeclared : ∃ f ∈ m.fields, f.name.face? = m.idField.face?
    · obtain ⟨f, hf, hsame⟩ := hdeclared
      have hstored : stored? item f = lookup? m.idField item := by
        unfold stored?
        rw [hown.column f hf hsame, if_neg Bool.false_ne_true, Option.none_or,
          Entries.lookup?_congr (hsame.trans hid) hid]
      rw [Entries.lookup?_congr hid (hsame.trans hid),
        lookup?_readFields h.toFaced hf, hstored]
      exact lookup?_item_id hid hown hrefs hitem
    · push Not at hdeclared
      refine .inl (Entries.lookup?_eq_none hid fun p hp hface => ?_)
      obtain ⟨f, hf, hsame, -⟩ := mem_readFields.mp hp
      exact hdeclared f hf (hsame ▸ hface.trans hid.symm)
  rw [Entries.lookup?_congr (hname.trans hid) hid]
  exact lookup?_whole_of_some hid (lookup?_copied hid hitem.id hread)

/-- What an element has under a name is what its record shows there: the name
is that of the primary key, or of a field whose storage key rows have no other
use for. -/
def Displays (m : Model) (e : Element) (name : Value) : Prop :=
  name.face? = m.idField.face? ∧ OwnId m e ∨
    ∃ f ∈ m.others, f.name.face? = name.face? ∧
      ∀ s ∈ ownNames m.isEdge, f.key.face? ≠ some (.text s)

theorem lookup?_whole (h : m.Apart) (hdisplays : Displays m e name)
    (hrefs : refs.isSome = m.isEdge) (hitem : Holds e (readKeys m) refs item)
    (hv : e.at? (m.conditionKey name) = some v) :
    lookup? name (whole m item) = some (normalize v) := by
  rcases hdisplays with ⟨hname, hown⟩ | ⟨f, hf, hname, hfree⟩
  · rw [h.conditionKey_id hname] at hv
    obtain rfl : e.id = v := Option.some.inj hv
    exact lookup?_whole_id h hname hown hrefs hitem
  · exact lookup?_whole_field h hf hname hfree hrefs hitem hv

end Record

end GraphMapper

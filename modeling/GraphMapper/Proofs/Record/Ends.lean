/-
The references of an edge, in its record and in what is stored.

Where the ends of an edge are stored under their own names (`Model.KeepsEnds`),
a record has the references of its row under these names (`toRecord_ends`),
whatever else the model declares, and a record of references alone is stored as
it is (`toStorage_ends`). Any model with a definition is like that if no field
with one of these names has a column (`Model.keepsEnds_ofDefinition`).

# What is copied

The references of a row are put into the record last. A field that is named
like an end may have read its reference by then, and nothing is copied over it
(`copied`). The id is put there before them, under the name of the primary key,
which is why that must not be the name of an end unless there is a field of it.

Chain: `Record.Reading` and `Record.Writing`; `Connector.References` writes,
reads and writes references again.
-/
import GraphMapper.Connector.Operations
import GraphMapper.Proofs.Model.Definition
import GraphMapper.Proofs.Record.Reading
import GraphMapper.Proofs.Record.Writing

namespace GraphMapper

/-- A field that is named like an end of an edge is stored under that name, and
if the primary key is named like one, it is declared. -/
structure Model.KeepsEnds (m : Model) : Prop where
  stored : ∀ f ∈ m.fields, ∀ s ∈ ["from", "to"],
    f.name.face? = some (.text s) → f.key.face? = some (.text s)
  declared : ∀ s ∈ ["from", "to"],
    m.idField.face? = some (.text s) → ∃ f ∈ m.fields,
    f.name.face? = some (.text s)

namespace Model

variable {m : Model} {name : Value} {s : String}

/-- A model with a definition declares its primary key, unless this is the
default. -/
theorem keepsEnds_ofDefinition {definition : Value}
    (h : ofDefinition definition = .ok m)
    (hstored : ∀ f ∈ m.fields, ∀ s ∈ ["from", "to"],
      f.name.face? = some (.text s) → f.key.face? = some (.text s)) :
      m.KeepsEnds := by
  refine ⟨hstored, fun s hs hid => ?_⟩
  rcases idField_ofDefinition h with hdefault | ⟨f, hf, hname⟩
  · rw [hdefault] at hid
    have hs' : s = "id" := (Face.text.inj (Option.some.inj hid)).symm
    rw [hs'] at hs
    exact absurd hs (by decide)
  · exact ⟨f, hf, by rw [hname, hid]⟩

/-- So a column that is found by the name of an end is that name. -/
theorem KeepsEnds.column (h : m.KeepsEnds) (hs : s ∈ ["from", "to"])
    (hname : name.face? = some (.text s))
    (hgiven : (m.column name).isGiven = true) :
    (m.column name).face? = some (.text s) := by
  unfold Model.column at hgiven ⊢
  cases hfound : m.field? name with
  | none =>
      rw [hfound] at hgiven
      cases hgiven
  | some f =>
      rw [hfound] at hgiven
      have hsame : f.name.sameKey name = true :=
        List.find?_some (p := fun g : Field => g.name.sameKey name) hfound
      have hkey := h.stored f (List.mem_of_find?_eq_some hfound) s hs
        ((Value.face_eq_of_sameKey hsame).trans hname)
      exact (congrArg Value.face? (if_pos hgiven)).symm.trans hkey

end Model

namespace Record

open Entries

variable {m : Model} {es acc own : Entries} {name v : Value} {s : String}

-- ==================================================================== reading

private theorem lookup?_of_at? {key w : Value}
    (h : (Value.map es).at? key = .ok w) : lookup? key es = some w := by
  unfold Value.at? Entries.find at h
  obtain ⟨found, hfound, h⟩ := bind_eq_ok h
  split at hfound
  · rw [Except.ok.inj hfound]
    split at h
    · rw [Except.ok.inj h]
    · cases h
  · cases hfound

private theorem lookup?_of_contains {key : Value} {b : Bool}
    (h : (Value.map es).contains key = .ok b) :
    (lookup? key es).isSome = b := by
  unfold Value.contains Entries.find at h
  obtain ⟨found, hfound, h⟩ := bind_eq_ok h
  split at hfound
  · rw [Except.ok.inj hfound]
    exact Except.ok.inj h
  · cases hfound

/-- A field that is named like an end reads the reference, and no other field
touches what stands under that name. -/
private theorem storedField_end (h : m.KeepsEnds) (hs : s ∈ ["from", "to"])
    (hv : lookup? (.text s) es = some v)
    (hgo : storedField m (.map es) acc name = .ok own) :
    lookup? (.text s) own = some v ∧ name.face? = some (.text s) ∨
      lookup? (.text s) own = lookup? (.text s) acc ∧
      name.face? ≠ some (.text s) := by
  have hsame : ∀ {key : Value}, key.face? = some (.text s) → ∀ es : Entries,
      lookup? (.text s) es = lookup? key es := fun hkey es =>
    lookup?_congr (show (Value.text _).face? = _ from rfl) hkey es
  -- whatever is read is put under the name of the field
  have hput : ∀ {key w : Value}, lookup? key es = some w →
      (name.face? = some (.text s) → key.face? = some (.text s)) →
      own = insert name w acc →
      lookup? (.text s) own = some v ∧ name.face? = some (.text s) ∨
        lookup? (.text s) own = lookup? (.text s) acc ∧
        name.face? ≠ some (.text s) := by
    rintro key w hw hkey rfl
    by_cases hname : name.face? = some (.text s)
    · rw [hsame (hkey hname), hw] at hv
      rw [hsame hname, lookup?_insert_self hname, ← hv]
      exact .inl ⟨rfl, hname⟩
    · exact .inr ⟨lookup?_insert_of_ne rfl hname w acc, hname⟩
  unfold storedField at hgo
  obtain ⟨inColumn, hcolumn, hgo⟩ := bind_eq_ok hgo
  cases inColumn with
  | true =>
      obtain ⟨w, hw, hgo⟩ := bind_eq_ok hgo
      refine hput (lookup?_of_at? hw) (fun hname => ?_)
        (Except.ok.inj hgo).symm
      split at hcolumn
      · next hgiven => exact h.column hs hname hgiven
      · cases hcolumn
  | false =>
      obtain ⟨there, hthere, hgo⟩ := bind_eq_ok hgo
      cases there with
      | true =>
          obtain ⟨w, hw, hgo⟩ := bind_eq_ok hgo
          exact hput (lookup?_of_at? hw) id (Except.ok.inj hgo).symm
      | false =>
          rw [← Except.ok.inj hgo]
          refine .inr ⟨rfl, fun hname => ?_⟩
          have hnone := lookup?_of_contains hthere
          rw [← hsame hname, hv] at hnone
          cases hnone

/-- A field that is named like an end has read the reference, or there is
none. -/
private theorem fromStorage_end (h : m.KeepsEnds) (hs : s ∈ ["from", "to"])
    (hv : lookup? (.text s) es = some v)
    (hgo : fromStorage m (.map es) = .ok own) :
    lookup? (.text s) own = some v ∨
      lookup? (.text s) own = none ∧ ∀ f ∈ m.fields,
      f.name.face? ≠ some (.text s) := by
  have hrun : ∀ (names : List Value) (acc : Entries),
      names.foldlM (storedField m (.map es)) acc = .ok own →
        lookup? (.text s) own = some v ∨
        lookup? (.text s) own = lookup? (.text s) acc ∧
          ∀ name ∈ names, name.face? ≠ some (.text s) := by
    intro names
    induction names with
    | nil =>
        intro acc hacc
        rw [Except.ok.inj hacc]
        exact .inr ⟨rfl, fun _ h => (nomatch h)⟩
    | cons name names ih =>
        intro acc hacc
        rw [List.foldlM_cons] at hacc
        obtain ⟨acc', hfirst, hrest⟩ := bind_eq_ok hacc
        rcases ih acc' hrest with hdone | ⟨hkept, hothers⟩
        · exact .inl hdone
        · rcases storedField_end h hs hv hfirst with ⟨hread, -⟩
            | ⟨hleft, hother⟩
          · exact .inl (hkept.trans hread)
          · refine .inr ⟨hkept.trans hleft, fun n hn => ?_⟩
            rcases List.mem_cons.mp hn with rfl | hn
            · exact hother
            · exact hothers n hn
  rcases hrun m.fieldNames [] hgo with hdone | ⟨hnone, hothers⟩
  · exact .inl hdone
  · exact .inr ⟨hnone, fun f hf => hothers f.name (List.mem_map_of_mem hf)⟩

/-- Entries with what others have under a source, if its key is free. -/
def copied (es : Entries) (key source : Value) (acc : Entries) : Entries :=
  if !has key acc && has source es then insert key (Entries.get source es) acc
  else acc

/-- It is not noticed under another key. -/
private theorem lookup?_copied_of_ne {key source : Value}
    (hne : key.face? ≠ some (.text s)) :
    lookup? (.text s) (copied es key source acc) = lookup? (.text s) acc := by
  unfold copied
  split
  · exact lookup?_insert_of_ne rfl hne _ _
  · rfl

private theorem copied_of_has {key source : Value}
    (hhas : has key acc = true) : copied es key source acc = acc := by
  unfold copied
  rw [hhas]
  rfl

/-- A reference that has not been read is copied. -/
private theorem lookup?_copied_self (hv : lookup? (.text s) es = some v)
    (hacc : lookup? (.text s) acc = some v ∨ lookup? (.text s) acc = none) :
    lookup? (.text s) (copied es (.text s) (.text s) acc) = some v := by
  rcases hacc with hacc | hacc
  · rw [copied_of_has, hacc]
    rw [has_eq_isSome, hacc]
    rfl
  · unfold copied Entries.get
    rw [has_eq_isSome, has_eq_isSome, hacc, hv]
    exact lookup?_insert_self rfl _ _

/-- The id is not put in the place of a reference. -/
private theorem lookup?_withId (h : m.KeepsEnds) (hs : s ∈ ["from", "to"])
    (hv : lookup? (.text s) es = some v)
    (hgo : fromStorage m (.map es) = .ok own) :
    lookup? (.text s) (copied es m.idField (.text "id") own) = some v ∨
      lookup? (.text s) (copied es m.idField (.text "id") own) = none := by
  rcases fromStorage_end h hs hv hgo with hread | ⟨hnone, hothers⟩
  · by_cases hid : m.idField.face? = some (.text s)
    · rw [copied_of_has]
      · exact .inl hread
      · rw [has_eq_isSome,
          lookup?_congr hid (show (Value.text s).face? = _ from rfl), hread]
        rfl
    · rw [lookup?_copied_of_ne hid]
      exact .inl hread
  · have hid : m.idField.face? ≠ some (.text s) := by
      intro hid
      obtain ⟨f, hf, hname⟩ := h.declared s hs hid
      exact hothers f hf hname
    rw [lookup?_copied_of_ne hid]
    exact .inr hnone

/-- The record of an edge has the references of its row. -/
theorem toRecord_ends (h : m.KeepsEnds) (hedge : m.isEdge = true)
    {origin target record : Value}
    (hfrom : lookup? (.text "from") es = some origin)
    (hto : lookup? (.text "to") es = some target)
    (hgo : Act.toRecord m none (.map es) = .ok record) : ∃ r, record = .map r ∧
      lookup? (.text "from") r = some origin ∧
      lookup? (.text "to") r = some target := by
  obtain ⟨own, hown, hgo⟩ := bind_eq_ok hgo
  have hrecord : record = .map (copied es (.text "to") (.text "to")
      (copied es (.text "from") (.text "from")
        (copied es m.idField (.text "id") own))) := by
    rw [hedge] at hgo
    exact (Except.ok.inj hgo).symm
  refine ⟨_, hrecord, ?_, ?_⟩
  · rw [lookup?_copied_of_ne (by simp [Value.face?])]
    exact lookup?_copied_self hfrom (lookup?_withId h (by simp) hfrom hown)
  · refine lookup?_copied_self hto ?_
    rw [lookup?_copied_of_ne (by simp [Value.face?])]
    exact lookup?_withId h (by simp) hto hown

-- ==================================================================== storing

/-- References are stored under the names of the ends. -/
theorem toStorage_ends (h : m.KeepsEnds) (origin target : Value) :
    toStorage m [(.text "from", origin), (.text "to", target)]
      = .ok [(.text "from", origin), (.text "to", target)] := by
  have hstays : ∀ s ∈ ["from", "to"], ∀ acc : Entries,
      renameKey m acc (.text s) = .ok acc := by
    intro s hs acc
    refine renameKey_of_stays (p := (.text s, .null)) rfl ?_ acc
    unfold renames
    rw [Bool.and_eq_false_iff, Bool.not_eq_false']
    by_cases hgiven : (m.column (.text s)).isGiven = true
    · exact .inr ((Value.equal_iff_face rfl).mpr (h.column hs rfl hgiven))
    · exact .inl (Bool.eq_false_iff.mpr hgiven)
  show (renameKey m _ (.text "from") >>= fun acc =>
      renameKey m acc (.text "to") >>= fun acc =>
    pure acc) = _
  rw [hstays "from" (by simp)]
  show (renameKey m _ (.text "to") >>= fun acc => pure acc) = _
  rw [hstays "to" (by simp)]
  rfl

end Record

end GraphMapper

/-
Records that come back from storage as they were.

A record is brought under storage keys entry by entry, and each entry is looked
for in a mapping that the ones before it have changed already. A field is read
from its column, or else from its name. What can go wrong is that a field reads
what belongs to another one: if two fields share a storage key, or if one is
stored under the name of another. A record of a single field shows that
(`reads_foreign`). There is nothing else that can go wrong, for any record and
any order of its keys (`round_trips_of_untangled`).

Neither direction looks at the primary key, so what is known of stored records
that have one is used for a primary key that no field has to do with
(`exists_unused`).

Main statement: `round_trips_iff`.

Chain: `Record.Writing` for storage, `Record.Reading` for the way back;
`Record.Renaming` takes the other condition on records.
-/
import GraphMapper.Proofs.Record.Reading
import GraphMapper.Proofs.Record.Writing
import Mathlib.Data.Set.Finite.List
import Mathlib.Data.Set.Finite.Range

namespace GraphMapper

/-- No two fields have the same storage key, and none is stored under the name
of another one. -/
structure Model.Untangled (m : Model) : Prop where
  keys : (m.fields.map fun f => f.key.face?).Nodup
  crossed : ∀ f ∈ m.fields, ∀ g ∈ m.fields, f.name.face? ≠ g.name.face? →
    f.key.face? ≠ g.name.face?

/-- Names and columns that are texts can be told apart from others; columns may
be absent. -/
theorem Model.faced_of_texts {m : Model}
    (hnames : ∀ f ∈ m.fields, ∃ s, f.name = .text s)
    (hcolumns : ∀ f ∈ m.fields, f.column = .null ∨ ∃ s, f.column = .text s)
    (hapart : (m.fields.map fun f => f.name.face?).Nodup) : m.Faced := by
  have hname : ∀ f ∈ m.fields, ∃ face, f.name.face? = some face := by
    intro f hf
    obtain ⟨s, hs⟩ := hnames f hf
    exact ⟨.text s, by rw [hs]; rfl⟩
  refine ⟨hname, fun f hf => ?_, hapart⟩
  unfold Field.key
  split
  · next hgiven =>
    rcases hcolumns f hf with hnull | ⟨s, hs⟩
    · rw [hnull] at hgiven
      cases hgiven
    · exact ⟨.text s, by rw [hs]; rfl⟩
  · exact hname f hf

/-- The model with another primary key. -/
def Model.withKey (m : Model) (id : Value) : Model := { m with idField := id }

namespace Record

variable {m : Model} {f g : Field} {es : Entries} {key v : Value}

/-- A record of declared fields, in any order. -/
structure OfFields (m : Model) (es : Entries) : Prop where
  distinct : Entries.Distinct es
  field : ∀ p ∈ es, ∃ f ∈ m.fields, p.1.face? = f.name.face?

/-- What is stored for the record is read as a mapping with the same under
every key. -/
def RoundTrips (m : Model) (es : Entries) : Prop :=
  ∃ stored back, toStorage m es = .ok stored ∧
    fromStorage m (.map stored) = .ok back ∧ Entries.Distinct back ∧ ∀ key,
    Entries.lookup? key back = Entries.lookup? key es

-- ========================================================== models in tangles

/-- A field reads what is stored under its own storage key. -/
private theorem stored?_of_key {face : Face} (hface : g.key.face? = some face)
    (hkey : key.face? = g.key.face?) : stored? [(key, v)] g = some v := by
  have hfound : Entries.lookup? g.key [(key, v)] = some v := by
    rw [Entries.lookup?_cons,
      if_pos ((Value.sameKey_iff_face hface).mpr (hkey.trans hface))]
  unfold Field.key at hfound
  unfold stored?
  split
  · next hgiven =>
    rw [if_pos hgiven] at hfound
    rw [hfound]
    rfl
  · next hgiven =>
    rw [if_neg hgiven] at hfound
    exact hfound

/-- And what is stored under its name, if there is nothing else. -/
private theorem stored?_of_name {face : Face}
    (hface : g.name.face? = some face)
    (hkey : key.face? = g.name.face?) : stored? [(key, v)] g = some v := by
  have hfound : Entries.lookup? g.name [(key, v)] = some v := by
    rw [Entries.lookup?_cons,
      if_pos ((Value.sameKey_iff_face hface).mpr (hkey.trans hface))]
  unfold stored?
  rw [hfound]
  split
  · rw [Entries.lookup?_cons]
    split <;> rfl
  · rfl

/-- A field that reads what belongs to another one is in no record of that
other one alone. -/
theorem reads_foreign (h : m.Faced) (hf : f ∈ m.fields) (hg : g ∈ m.fields)
    (hne : f.name.face? ≠ g.name.face?)
    (hkey : f.key.face? = g.key.face? ∨ f.key.face? = g.name.face?) :
    ¬RoundTrips m [(f.name, .null)] := by
  rintro ⟨stored, back, hstored, hback, -, hsame⟩
  obtain ⟨nameFace, hnameFace⟩ := h.facedName g hg
  obtain ⟨keyFace, hkeyFace⟩ := h.facedKey g hg
  have hmoved := face_moved (p := (f.name, .null)) h hf rfl
  rw [toStorage_single (p := (f.name, .null)) h hf rfl] at hstored
  rw [← Except.ok.inj hstored, fromStorage_eq h] at hback
  have hread : stored? [moved m (f.name, .null)] g
      = some (moved m (f.name, .null)).2 := by
    rcases hkey with hkey | hkey
    · exact stored?_of_key hkeyFace (hmoved.trans hkey)
    · exact stored?_of_name hnameFace (hmoved.trans hkey)
  have hlost : Entries.lookup? g.name [(f.name, Value.null)] = none := by
    refine Entries.lookup?_eq_none hnameFace fun e he hface => hne ?_
    rw [List.mem_singleton.mp he] at hface
    exact hface.trans hnameFace.symm
  have hown := hsame g.name
  rw [← Except.ok.inj hback, lookup?_readFields h hg, hread, hlost] at hown
  cases hown

-- ===================================================== models without tangles

/-- There is a primary key that no field has to do with. -/
theorem exists_unused (m : Model) :
    ∃ id : Value, (∃ face, id.face? = some face) ∧ ∀ f ∈ m.fields,
      f.name.face? ≠ id.face? ∧ f.key.face? ≠ id.face? := by
  let taken :=
    m.fields.map (fun f => f.name.face?) ++ m.fields.map fun f => f.key.face?
  have hinjective : Function.Injective fun n : Nat => (Value.int n).face? := by
    intro a b hab
    have hnumber : mkRat (a : Int) 1 = mkRat (b : Int) 1 :=
      Face.number.inj (Option.some.inj hab)
    rw [Rat.mkRat_one, Rat.mkRat_one] at hnumber
    exact_mod_cast hnumber
  obtain ⟨_, ⟨n, rfl⟩, hn⟩ :=
    (Set.infinite_range_of_injective hinjective).exists_notMem_finite
      (List.finite_toSet taken)
  refine ⟨.int n, ⟨_, rfl⟩, fun f hf =>
    ⟨fun hname => hn ?_, fun hkey => hn ?_⟩⟩
  · exact List.mem_append_left _ (List.mem_map.mpr ⟨f, hf, hname⟩)
  · exact List.mem_append_right _ (List.mem_map.mpr ⟨f, hf, hkey⟩)

/-- With such a primary key, all fields are others, and all of them can be told
apart. -/
private theorem unmixed_unused (h : m.Faced) (hu : m.Untangled) {id : Value}
    (hid : ∃ face, id.face? = some face)
    (hunused : ∀ f ∈ m.fields, f.name.face? ≠ id.face? ∧
      f.key.face? ≠ id.face?) :
    (m.withKey id).Unmixed ∧ (m.withKey id).others = m.fields := by
  obtain ⟨face, hface⟩ := hid
  have hall : (m.withKey id).others = m.fields := by
    refine List.filter_eq_self.mpr fun f hf => ?_
    have hname := (hunused f hf).1
    rw [hface] at hname
    rw [Bool.not_eq_true', Bool.eq_false_iff]
    exact fun hequal => hname ((Value.equal_iff_face hface).mp hequal)
  refine ⟨⟨⟨⟨h.facedName, h.facedKey, h.names⟩, ⟨face, hface⟩, hu.keys⟩,
    hu.crossed, fun f hf => ?_, fun f hf hsame =>
      absurd hsame (hunused f hf).1⟩, hall⟩
  rw [hall] at hf
  exact (hunused f hf).2

/-- Each field reads what the record has for it. -/
private theorem stored?_inStorage (h : m.Unmixed) (hes : Named m es)
    (hall : m.others = m.fields) (hf : f ∈ m.fields) :
    stored? (inStorage m es) f = Entries.lookup? f.name es := by
  obtain ⟨face, hface⟩ := h.facedName f hf
  have hkey : Entries.lookup? f.key (inStorage m es)
      = Entries.lookup? f.name es :=
    lookup?_inStorage h hes (hall.symm ▸ hf)
  -- under the name of a field there is at most what is under its storage key
  have hname : ∀ v, Entries.lookup? f.name (inStorage m es) = some v →
      f.key.face? = f.name.face? := by
    intro v hfound
    obtain ⟨p, hp, hsame, -⟩ := Entries.mem_of_lookup? hfound
    have hpface := (Value.sameKey_iff_face hface).mp hsame
    rcases mem_inStorage h hes hp with hid | ⟨g, hg, hgkey⟩
    · have hother := (List.mem_filter.mp (hall.symm ▸ hf)).2
      obtain ⟨idFace, hidFace⟩ := h.facedId
      rw [(Value.equal_iff_face hidFace).mpr
        (hface.trans (hpface.symm.trans (hid.trans hidFace)))] at hother
      cases hother
    · have hg := Model.mem_fields_of_others hg
      have hgname : g.key.face? = f.name.face? :=
        hgkey.symm.trans (hpface.trans hface.symm)
      by_cases hne : g.name.face? = f.name.face?
      · rw [h.eq_of_name hg hf hne] at hgname
        exact hgname
      · exact absurd hgname (h.crossed g hg f hf hne)
  unfold stored?
  unfold Field.key at hkey hname
  split
  · next hgiven =>
    rw [if_pos hgiven] at hkey hname
    rw [hkey]
    cases hfound : Entries.lookup? f.name (inStorage m es) with
    | none => rw [Option.or_none]
    | some v =>
        rw [Entries.lookup?_congr (hname v hfound ▸ hface) hface,
          hfound] at hkey
        rw [← hkey]
        rfl
  · next hgiven =>
    rw [if_neg hgiven] at hkey
    exact hkey

theorem round_trips_of_untangled (h : m.Faced) (hu : m.Untangled)
    (hes : OfFields m es) :
    RoundTrips m es := by
  obtain ⟨id, hid, hunused⟩ := exists_unused m
  obtain ⟨hunmixed, hall⟩ := unmixed_unused h hu hid hunused
  have hnamed : Named (m.withKey id) es :=
    ⟨hes.distinct, fun p hp => .inr (hall.symm ▸ hes.field p hp)⟩
  have hstored : toStorage m es = .ok (inStorage m es) :=
    toStorage_eq (m := m.withKey id) hunmixed hnamed
  have hdistinct : Entries.Distinct (readFields (inStorage m es) m.fields) :=
    distinct_readFields h.facedName h.names
  refine ⟨inStorage m es, readFields (inStorage m es) m.fields, hstored,
    fromStorage_eq h _, hdistinct, fun key => ?_⟩
  have hown : ∀ {f : Field}, f ∈ m.fields →
      Entries.lookup? f.name (readFields (inStorage m es) m.fields)
        = Entries.lookup? f.name es := by
    intro f hf
    rw [lookup?_readFields h hf]
    exact stored?_inStorage (m := m.withKey id) hunmixed hnamed hall hf
  by_cases hkey : ∃ f ∈ m.fields, key.face? = f.name.face?
  · obtain ⟨f, hf, hkey⟩ := hkey
    obtain ⟨face, hface⟩ := h.facedName f hf
    rw [hface] at hkey
    rw [Entries.lookup?_congr hkey hface, hown hf,
      Entries.lookup?_congr hkey hface]
  · -- under no other key is there anything
    have hnone : ∀ {more : Entries},
        OfFields m more → Entries.lookup? key more = none := by
      intro more hmore
      cases hfound : Entries.lookup? key more with
      | none => rfl
      | some v =>
          obtain ⟨p, hp, hsame, -⟩ := Entries.mem_of_lookup? hfound
          obtain ⟨f, hf, hname⟩ := hmore.field p hp
          exact absurd
            ⟨f, hf, (Value.face_eq_of_sameKey hsame).symm.trans hname⟩ hkey
    have hback : OfFields m (readFields (inStorage m es) m.fields) := by
      refine ⟨hdistinct, fun p hp => ?_⟩
      obtain ⟨f, hf, hname, -⟩ := mem_readFields.mp hp
      exact ⟨f, hf, by rw [hname]⟩
    rw [hnone hback, hnone hes]

/-- Records of declared fields come back from storage as they were, all of them
and in any order, if and only if no two fields have the same storage key and
none is stored under the name of another. -/
theorem round_trips_iff (h : m.Faced) :
    (∀ es, OfFields m es → RoundTrips m es) ↔ m.Untangled := by
  refine ⟨fun hall => ?_, fun hu es hes => round_trips_of_untangled h hu hes⟩
  have hsingle : ∀ {f : Field},
      f ∈ m.fields → RoundTrips m [(f.name, .null)] := by
    intro f hf
    refine hall _ ⟨⟨fun p hp => ?_, List.nodup_singleton _⟩,
      fun p hp => ⟨f, hf, ?_⟩⟩
    · rw [List.mem_singleton.mp hp]
      exact h.facedName f hf
    · rw [List.mem_singleton.mp hp]
  refine ⟨?_, fun f hf g hg hne hkey =>
    reads_foreign h hf hg hne (.inr hkey) (hsingle hf)⟩
  have hnodup : m.fields.Nodup := List.Nodup.of_map _ h.names
  refine (List.nodup_map_iff_inj_on hnodup).mpr fun f hf g hg hkey => ?_
  by_contra hne
  exact reads_foreign h hf hg (fun hname => hne (h.eq_of_name hf hg hname))
    (.inl hkey) (hsingle hf)

/-- Books have a title in a column and a size without one. -/
def bookModel (column : String) : Model where
  label := .text "Book"
  name := "Book"
  named := rfl
  kind := .vertex
  fields := [⟨.text "title", .string, .text column⟩,
    ⟨.text "size", .number, .null⟩]
  retry := .standard
  idField := .text "id"

private theorem faced_bookModel (column : String) :
    (bookModel column).Faced := by
  refine Model.faced_of_texts (fun f hf => ?_) (fun f hf => ?_)
    (show [some (Face.text "title"), some (Face.text "size")].Nodup by decide)
  · rcases List.mem_cons.mp hf with rfl | hf
    · exact ⟨_, rfl⟩
    · rw [List.mem_singleton.mp hf]
      exact ⟨_, rfl⟩
  · rcases List.mem_cons.mp hf with rfl | hf
    · exact .inr ⟨_, rfl⟩
    · rw [List.mem_singleton.mp hf]
      exact .inl rfl

/-- A column with a name of its own does no harm; one that is named like the
size does. -/
theorem round_trips_iff_book :
    (∀ es, OfFields (bookModel "heading") es →
      RoundTrips (bookModel "heading") es) ∧ ¬∀ es,
      OfFields (bookModel "size") es → RoundTrips (bookModel "size") es := by
  refine ⟨(round_trips_iff (faced_bookModel "heading")).mpr
    ⟨by decide, by decide⟩, fun hall => ?_⟩
  have huntangled := (round_trips_iff (faced_bookModel "size")).mp hall
  exact huntangled.crossed _ List.mem_cons_self _
    (List.mem_cons_of_mem _ List.mem_cons_self) (by decide) rfl

end Record

end GraphMapper

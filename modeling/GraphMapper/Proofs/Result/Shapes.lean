/-
What is left of the shapes of the driver when a result is in normal form.

A normal result is built of scalars, lists and mappings, and its keys are no
members of vocabularies: elements, properties, paths, traversers, tuples and
sets are gone as values, however deep they are nested. But a key is only looked
at for whether it is a member of a vocabulary. So a mapping under elements, as
a grouping gives it, keeps them for its keys, and the result is built of
scalars throughout if and only if every mapping that is shown in the value has
only scalars and members of vocabularies for keys.

Both follow from what keys a result has (`built_normalize_iff`): those of the
mappings that are shown, each as it is or by its name. The proof goes through
the value along the recursion of the normal form; what is shown of a mapping is
what is left when keys have run into one another.

Main statement: `normalize_shapes`.

Chain: `Result.Normal` for the definition, `Model.Keys` for plain keys;
`Result.Idempotence` says that the normal form has one.
-/
import GraphMapper.Proofs.Model.Keys
import GraphMapper.Proofs.Result.Records

namespace GraphMapper

namespace Entries

variable {β γ : Type} {es acc : List (Value × β)}

/-- Values may be changed before or after entries are put together. -/
theorem ofList_map (f : β → γ) (es : List (Value × β)) :
    ofList (es.map fun e => (e.1, f e.2))
      = (ofList es).map fun e => (e.1, f e.2) := by
  have hinsert : ∀ (key : Value) (v : β) (acc : List (Value × β)),
      insert key (f v) (acc.map fun e => (e.1, f e.2))
        = (insert key v acc).map fun e => (e.1, f e.2) := by
    intro key v acc
    induction acc with
    | nil => rfl
    | cons e acc ih =>
        rw [List.map_cons, insert, insert, ih]
        split <;> rfl
  have hgo : ∀ acc : List (Value × β),
      (es.map fun e => (e.1, f e.2)).foldl (fun acc e => insert e.1 e.2 acc)
        (acc.map fun e => (e.1, f e.2))
        = (es.foldl (fun acc e => insert e.1 e.2 acc) acc).map fun e =>
          (e.1, f e.2) := by
    induction es with
    | nil => exact fun _ => rfl
    | cons e es ih =>
        intro acc
        rw [List.map_cons, List.foldl_cons, List.foldl_cons, hinsert]
        exact ih _
  exact hgo []

/-- What there is in a mapping was put there. -/
theorem mem_ofList {e : Value × β} (h : e ∈ ofList es) :
    (∃ d ∈ es, d.1 = e.1) ∧ ∃ d ∈ es, d.2 = e.2 := by
  refine ⟨key_of_insertions h, ?_⟩
  have hgo : ∀ acc : List (Value × β),
      e ∈ es.foldl (fun acc e => insert e.1 e.2 acc) acc → ∃ d ∈ acc ++ es,
      d.2 = e.2 := by
    clear h
    induction es with
    | nil => exact fun acc hacc => ⟨e, by simpa using hacc, rfl⟩
    | cons c es ih =>
        intro acc hacc
        obtain ⟨d, hd, hde⟩ := ih (insert c.1 c.2 acc) hacc
        rcases List.mem_append.mp hd with hd | hd
        · rcases mem_insert hd with hd | ⟨hvalue, -⟩
          · exact ⟨d, List.mem_append_left _ hd, hde⟩
          · exact ⟨c, by simp, hvalue.symm.trans hde⟩
        · exact ⟨d, by simp [hd], hde⟩
  exact hgo [] h

private theorem keys_subset_insertions (es acc : List (Value × β)) :
    keys acc ⊆ keys (es.foldl (fun acc e => insert e.1 e.2 acc) acc) := by
  induction es generalizing acc with
  | nil => exact fun _ hk => hk
  | cons e es ih =>
      refine List.Subset.trans ?_ (ih (insert e.1 e.2 acc))
      rw [keys_insert]
      split
      · exact fun _ hk => hk
      · exact List.subset_append_left _ _

/-- Whatever is put into a mapping stands there under its key or one that is
the same. -/
private theorem key_in_ofList {d : Value × β} (h : d ∈ es) :
    ∃ k ∈ keys (ofList es), k = d.1 ∨ k.sameKey d.1 = true := by
  obtain ⟨before, after, rfl⟩ := List.append_of_mem h
  let acc := before.foldl (fun acc e => insert e.1 e.2 acc) []
  have hput : ∃ k ∈ keys (insert d.1 d.2 acc),
      k = d.1 ∨ k.sameKey d.1 = true := by
    rw [keys_insert]
    split
    · next hhas =>
      obtain ⟨e, he, hsame⟩ := List.any_eq_true.mp hhas
      exact ⟨e.1, List.mem_map_of_mem he, .inr hsame⟩
    · exact ⟨d.1, List.mem_append_right _ (List.mem_singleton.mpr rfl),
        .inl rfl⟩
  obtain ⟨k, hk, hown⟩ := hput
  refine ⟨k, ?_, hown⟩
  rw [ofList, List.foldl_append, List.foldl_cons]
  exact keys_subset_insertions after (insert d.1 d.2 acc) hk

end Entries

namespace Result

variable {p : Value → Prop} {v w : Value} {es : Entries} {items : List Value}

-- ================================================================= statements

/-- Values as the driver gives them: nested to any depth from scalars, members
of vocabularies, lists, tuples, sets, mappings under any keys, and elements
with texts for labels, properties, paths and traversers. -/
inductive IsRaw : Value → Prop where
  | bare {v : Value} (h : v.isBare = true) : IsRaw v
  | symbol (s : Symbol) : IsRaw (.symbol s)
  | list {items : List Value} (h : ∀ v ∈ items, IsRaw v) : IsRaw (.list items)
  | tuple {items : List Value} (h : ∀ v ∈ items, IsRaw v) :
      IsRaw (.tuple items)
  | set {items : List Value} (h : ∀ v ∈ items, IsRaw v) : IsRaw (.set items)
  | map {es : Entries} (h : ∀ e ∈ es, IsRaw e.2) : IsRaw (.map es)
  | vertex {id : Value} (label : String) (hid : IsRaw id) :
      IsRaw (.vertex id (.text label))
  | edge {id outId inId : Value} (label outLabel inLabel : String)
      (hid : IsRaw id) (hout : IsRaw outId) (hin : IsRaw inId) :
      IsRaw (.edge id (.text label) outId (.text outLabel) inId
        (.text inLabel))
  | vertexProperty (id label : Value) {value : Value} (h : IsRaw value) :
      IsRaw (.vertexProperty id label value)
  | property (key : Value) {value : Value} (h : IsRaw value) :
      IsRaw (.property key value)
  | path {objects : List Value} (h : ∀ v ∈ objects, IsRaw v) :
      IsRaw (.path objects)
  | traverser {object : Value} (h : IsRaw object) : IsRaw (.traverser object)

/-- Built of scalars, lists and mappings, with keys of one kind. -/
inductive Built (p : Value → Prop) : Value → Prop where
  | bare {v : Value} (h : v.isBare = true) : Built p v
  | list {items : List Value} (h : ∀ v ∈ items, Built p v) :
      Built p (.list items)
  | map {es : Entries} (hkeys : ∀ e ∈ es, p e.1)
      (hvalues : ∀ e ∈ es, Built p e.2) :
      Built p (.map es)

/-- The entries that are left when keys have run into one another: of those
under one key the last, in the place of the first. -/
def left (es : Entries) : Entries :=
  Entries.ofList (es.map fun e => (normalKey e.1, e.2))

/-- The value is shown in another one: as a part of it that is no key, and
nothing that is left out. -/
inductive Shown (w : Value) : Value → Prop where
  | self : Shown w w
  | list {items : List Value} {v : Value} (hv : v ∈ items) (h : Shown w v) :
      Shown w (.list items)
  | tuple {items : List Value} {v : Value} (hv : v ∈ items) (h : Shown w v) :
      Shown w (.tuple items)
  | set {items : List Value} {v : Value} (hv : v ∈ items) (h : Shown w v) :
      Shown w (.set items)
  | map {es : Entries} {e : Value × Value} (he : e ∈ left es)
      (h : Shown w e.2) : Shown w (.map es)
  | vertex {id : Value} (label : Value) (h : Shown w id) :
      Shown w (.vertex id label)
  | edge {id : Value} (label outId outLabel inId inLabel : Value)
      (h : Shown w id) :
      Shown w (.edge id label outId outLabel inId inLabel)
  | origin {outId : Value} (id label outLabel inId inLabel : Value)
      (h : Shown w outId) :
      Shown w (.edge id label outId outLabel inId inLabel)
  | target {inId : Value} (id label outId outLabel inLabel : Value)
      (h : Shown w inId) :
      Shown w (.edge id label outId outLabel inId inLabel)
  | vertexProperty {value : Value} (id label : Value) (h : Shown w value) :
      Shown w (.vertexProperty id label value)
  | property {value : Value} (key : Value) (h : Shown w value) :
      Shown w (.property key value)
  | path {objects : List Value} {v : Value} (hv : v ∈ objects)
      (h : Shown w v) : Shown w (.path objects)
  | traverser {object : Value} (h : Shown w object) :
      Shown w (.traverser object)

/-- All keys of the result that come from mappings that are shown are of a
kind. -/
def KeysAre (p : Value → Prop) (v : Value) : Prop :=
  ∀ es, Shown (.map es) v → ∀ e ∈ left es, p e.1

-- ============================================================== what is built

private theorem built_list_iff :
    Built p (.list items) ↔ ∀ v ∈ items, Built p v := by
  constructor
  · intro h
    cases h with
    | bare h => cases h
    | list h => exact h
  · exact .list

private theorem built_map_iff :
    Built p (.map es) ↔ ∀ e ∈ es, p e.1 ∧ Built p e.2 := by
  constructor
  · intro h
    cases h with
    | bare h => cases h
    | map hkeys hvalues => exact fun e he => ⟨hkeys e he, hvalues e he⟩
  · exact fun h => .map (fun e he => (h e he).1) fun e he => (h e he).2

/-- An element is built of its id, and of texts. -/
private theorem built_elementMap_iff (htext : ∀ s, p (.text s)) {id : Value}
    {label : String} :
    Built p (elementMap id (.text label)) ↔ Built p id := by
  have hlabel : Built p (.text label) := .bare rfl
  unfold elementMap
  simp [built_map_iff, htext, hlabel]

-- ============================================================== what is shown

private theorem keysAre_of_bare (h : v.isBare = true ∨ v.isSymbol = true) :
    KeysAre p v := by
  intro es hshown
  cases hshown with
  | self => exact absurd h (by simp [Value.isBare, Value.isSymbol])
  | _ => exact absurd h (by simp [Value.isBare, Value.isSymbol])

/-- What has one part shows that. -/
private theorem keysAre_part
    (h : ∀ es, Shown (.map es) w ↔ Shown (.map es) v) :
    KeysAre p w ↔ KeysAre p v := by
  unfold KeysAre
  simp only [h]

/-- What has items shows these. -/
private theorem keysAre_items
    (h : ∀ es, Shown (.map es) w ↔ ∃ v ∈ items, Shown (.map es) v) :
    KeysAre p w ↔ ∀ v ∈ items, KeysAre p v := by
  unfold KeysAre
  simp only [h]
  exact ⟨fun hw v hv es hes => hw es ⟨v, hv, hes⟩, fun hw es ⟨v, hv, hes⟩ =>
    hw v hv es hes⟩

private theorem keysAre_edge {id label outId outLabel inId inLabel : Value} :
    KeysAre p (.edge id label outId outLabel inId inLabel)
      ↔ KeysAre p id ∧ KeysAre p outId ∧ KeysAre p inId := by
  have hshown : ∀ es,
      Shown (.map es) (.edge id label outId outLabel inId inLabel)
        ↔ Shown (.map es) id ∨ Shown (.map es) outId ∨
        Shown (.map es) inId := by
    intro es
    constructor
    · intro h
      cases h with
      | edge _ _ _ _ _ h => exact .inl h
      | origin _ _ _ _ _ h => exact .inr (.inl h)
      | target _ _ _ _ _ h => exact .inr (.inr h)
    · rintro (h | h | h)
      · exact .edge _ _ _ _ _ h
      · exact .origin _ _ _ _ _ h
      · exact .target _ _ _ _ _ h
  unfold KeysAre
  simp only [hshown, or_imp, forall_and]

private theorem keysAre_map :
    KeysAre p (.map es) ↔ ∀ e ∈ left es, p e.1 ∧ KeysAre p e.2 := by
  constructor
  · exact fun h e he =>
      ⟨h es .self e he, fun more hmore => h more (.map he hmore)⟩
  · intro h more hmore
    cases hmore with
    | self => exact fun e he => (h e he).1
    | map he hmore => exact (h _ he).2 more hmore

-- ============================================================= normal results

private theorem normalize_of_bare (h : v.isBare = true) : normalize v = v := by
  cases v with
  | null | bool _ | int _ | float _ | text _ | bytes _ | date _
  | dateTime _ => rfl
  | _ => cases h

theorem normalize_map (es : Entries) :
    normalize (.map es)
      = .map ((left es).map fun e => (e.1, normalize e.2)) := by
  have hentries : normalizeEntries es
      = (es.map fun e => (normalKey e.1, e.2)).map fun e =>
        (e.1, normalize e.2) := by
    rw [normalizeEntries_eq_map, List.map_map]
    rfl
  rw [normalize, hentries, Entries.ofList_map]
  rfl

/-- Items are brought into normal form one by one. -/
private theorem built_items_iff
    (hshown : ∀ es, Shown (.map es) w ↔ ∃ v ∈ items, Shown (.map es) v)
    (ih : ∀ v ∈ items, Built p (normalize v) ↔ KeysAre p v) :
    Built p (.list (normalizeAll items)) ↔ KeysAre p w := by
  rw [normalizeAll_eq_map, built_list_iff, keysAre_items hshown]
  simp only [List.mem_map, forall_exists_index, and_imp,
    forall_apply_eq_imp_iff₂]
  exact forall₂_congr ih

/-- A result has the keys of the mappings that are shown, and only these
besides texts. -/
theorem built_normalize_iff (htext : ∀ s, p (.text s)) (h : IsRaw v) :
    Built p (normalize v) ↔ KeysAre p v := by
  -- on the raw value: only mappings ask about keys, every other shape passes
  -- on to its parts
  induction h with
  | bare h =>
      rw [normalize_of_bare h]
      exact iff_of_true (.bare h) (keysAre_of_bare (.inl h))
  | symbol s => exact iff_of_true (.bare rfl) (keysAre_of_bare (.inr rfl))
  | list _ ih =>
      refine built_items_iff
        (fun es => ⟨fun h => ?_, fun ⟨v, hv, h⟩ => .list hv h⟩) ih
      cases h with
      | list hv h => exact ⟨_, hv, h⟩
  | tuple _ ih =>
      refine built_items_iff
        (fun es => ⟨fun h => ?_, fun ⟨v, hv, h⟩ => .tuple hv h⟩) ih
      cases h with
      | tuple hv h => exact ⟨_, hv, h⟩
  | set _ ih =>
      refine built_items_iff
        (fun es => ⟨fun h => ?_, fun ⟨v, hv, h⟩ => .set hv h⟩) ih
      cases h with
      | set hv h => exact ⟨_, hv, h⟩
  | path _ ih =>
      refine built_items_iff
        (fun es => ⟨fun h => ?_, fun ⟨v, hv, h⟩ => .path hv h⟩) ih
      cases h with
      | path hv h => exact ⟨_, hv, h⟩
  | @map es _ ih =>
      rw [normalize_map, built_map_iff, keysAre_map]
      simp only [List.mem_map, forall_exists_index, and_imp,
        forall_apply_eq_imp_iff₂]
      refine forall₂_congr fun e he => and_congr_right fun _ => ?_
      obtain ⟨-, d, hd, hde⟩ := Entries.mem_ofList he
      obtain ⟨c, hc, rfl⟩ := List.mem_map.mp hd
      rw [← hde]
      exact ih c hc
  | vertex label _ ih =>
      rw [normalize, built_elementMap_iff htext, ih]
      refine (keysAre_part fun es => ⟨fun h => ?_, .vertex _⟩).symm
      cases h with
      | vertex _ h => exact h
  | edge label outLabel inLabel _ _ _ ih ihOut ihIn =>
      have hlabel : Built p (.text label) := .bare rfl
      rw [normalize, built_map_iff, keysAre_edge, ← ih, ← ihOut, ← ihIn]
      simp [htext, hlabel, built_elementMap_iff htext]
  | vertexProperty id label _ ih =>
      rw [normalize, ih]
      refine (keysAre_part fun es => ⟨fun h => ?_, .vertexProperty _ _⟩).symm
      cases h with
      | vertexProperty _ _ h => exact h
  | property key _ ih =>
      rw [normalize, ih]
      refine (keysAre_part fun es => ⟨fun h => ?_, .property _⟩).symm
      cases h with
      | property _ h => exact h
  | traverser _ ih =>
      rw [normalize, ih]
      refine (keysAre_part fun es => ⟨fun h => ?_, .traverser⟩).symm
      cases h with
      | traverser h => exact h

/-- The names of members of vocabularies are keys in their place. -/
theorem isSymbol_of_left {e : Value × Value} (he : e ∈ left es) :
    e.1.isSymbol = false := by
  obtain ⟨⟨d, hd, hde⟩, -⟩ := Entries.mem_ofList he
  obtain ⟨c, -, rfl⟩ := List.mem_map.mp hd
  rw [← hde]
  show (normalKey c.1).isSymbol = false
  cases c.1 <;> rfl

/-- Keys that are left are scalars if all are scalars or members of
vocabularies, and only then. -/
private theorem isBare_left_iff : (∀ e ∈ left es, e.1.isBare = true) ↔
    ∀ e ∈ es, e.1.isBare = true ∨ e.1.isSymbol = true := by
  have hkey : ∀ k : Value, (normalKey k).isBare = true
      ↔ k.isBare = true ∨ k.isSymbol = true := by
    intro k
    cases k <;> simp [normalKey, Value.isBare, Value.isSymbol]
  constructor
  · intro h e he
    have hmem : (normalKey e.1, e.2) ∈ es.map fun e => (normalKey e.1, e.2) :=
      List.mem_map_of_mem he
    obtain ⟨k, hk, hown⟩ := Entries.key_in_ofList hmem
    obtain ⟨d, hd, rfl⟩ := List.mem_map.mp hk
    have hbare := h d hd
    rw [← hkey]
    rcases hown with hown | hsame
    · rwa [hown] at hbare
    · -- the key stands there in another spelling
      refine (Value.isBare_of_same hbare
        (Bool.and_eq_true_iff.mp hsame).1).resolve_right ?_
      rintro ⟨s, hs⟩
      change normalKey e.1 = .symbol s at hs
      unfold normalKey at hs
      split at hs
      · cases hs
      · next hno => exact hno s hs
  · intro h e he
    obtain ⟨⟨d, hd, hde⟩, -⟩ := Entries.mem_ofList he
    obtain ⟨c, hc, rfl⟩ := List.mem_map.mp hd
    rw [← hde]
    exact (hkey c.1).mpr (h c hc)

/-- Whatever the driver gives, the normal result is built of scalars, lists and
mappings, and no key of it is a member of a vocabulary. Its keys are scalars
throughout just when in every mapping that is shown the keys are scalars or
members of vocabularies. -/
theorem normalize_shapes (h : IsRaw v) :
    Built (fun key => key.isSymbol = false) (normalize v) ∧
    (Built (fun key => key.isBare = true) (normalize v) ↔
      ∀ es, Shown (.map es) v → ∀ e ∈ es,
      e.1.isBare = true ∨ e.1.isSymbol = true) := by
  constructor
  · exact (built_normalize_iff (fun _ => rfl) h).mpr fun es _ e he =>
      isSymbol_of_left he
  · rw [built_normalize_iff (fun _ => rfl) h]
    exact forall₂_congr fun es _ => isBare_left_iff

/-- Vertices with how many there are, as a grouping gives them. -/
def groupedVertices : Value :=
  .list [.map [(.vertex (.int 1) (.text "Person"), .int 2)],
    .map [(.labelKey, .tuple [.null])]]

/-- A vertex stays for a key. -/
theorem normalize_shapes_grouped :
    Built (fun key => key.isSymbol = false) (normalize groupedVertices) ∧
      ¬Built (fun key => key.isBare = true) (normalize groupedVertices) := by
  have hraw : IsRaw groupedVertices := by
    refine .list fun v hv => ?_
    rcases List.mem_cons.mp hv with rfl | hv
    · exact .map fun e he => by rw [List.mem_singleton.mp he]; exact .bare rfl
    · rw [List.mem_singleton.mp hv]
      refine .map fun e he => ?_
      rw [List.mem_singleton.mp he]
      exact .tuple fun v hv => by
        rw [List.mem_singleton.mp hv]; exact .bare rfl
  obtain ⟨hbuilt, hkeys⟩ := normalize_shapes hraw
  refine ⟨hbuilt, fun hbare => ?_⟩
  have hvertex :=
    hkeys.mp hbare _ (.list List.mem_cons_self .self) _ List.mem_cons_self
  exact absurd hvertex (by decide)

end Result

end GraphMapper

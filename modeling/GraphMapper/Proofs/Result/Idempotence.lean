/-
A result in normal form is left as it is by another pass.

The first pass leaves lists, mappings and scalars, and mappings in which no key
is a member of a vocabulary or the same as another one. So the second pass
finds the keys as they were put and nothing to run into one another
(`left_normal`), also where the first one has merged entries. What is in the
way are labels alone: an element is shown with its label as it was given, and
if that has a normal form of its own the second pass brings it there.
`normalize_normalize_iff` says that nothing else is: a result stands just when
the labels of all elements that are shown do. It goes through the value along
the recursion of the normal form, part by part (`parts`).

Main statement: `normalize_again`.
-/
import GraphMapper.Proofs.Result.Shapes

namespace GraphMapper

private theorem Entries.isMapping_ofList {β : Type} (es : List (Value × β)) :
    IsMapping (ofList es) :=
  IsMapping.insertions List.Pairwise.nil

namespace Result

variable {p q : Value → Prop} {v w : Value} {es : Entries} {items : List Value}

-- ================================================================= statements

/-- The labels of an element are of a kind, those of its ends included. Other
values have none. -/
def Labelled (p : Value → Prop) : Value → Prop
  | .vertex _ label => p label
  | .edge _ label _ outLabel _ inLabel => p label ∧ p outLabel ∧ p inLabel
  | _ => True

/-- All elements that are shown in a value have labels of a kind. -/
def LabelsAre (p : Value → Prop) (v : Value) : Prop :=
  ∀ w, Shown w v → Labelled p w

/-- The label is a text. -/
def IsText (label : Value) : Prop := ∃ s, label = .text s

-- ====================================================================== parts

/-- What a value shows of itself, one step down. -/
def parts : Value → List Value
  | .list items | .tuple items | .set items | .path items => items
  | .map es => (left es).map (·.2)
  | .vertex id _ => [id]
  | .edge id _ outId _ inId _ => [id, outId, inId]
  | .vertexProperty _ _ value | .property _ value | .traverser value => [value]
  | _ => []

private theorem shown_iff : Shown w v ↔ w = v ∨ ∃ u ∈ parts v, Shown w u := by
  constructor
  · intro h
    cases h with
    | self => exact .inl rfl
    | list hv h | tuple hv h | set hv h | path hv h => exact .inr ⟨_, hv, h⟩
    | map he h => exact .inr ⟨_, List.mem_map_of_mem he, h⟩
    | _ => exact .inr (by simp [parts, *])
  · rintro (rfl | ⟨u, hu, h⟩)
    · exact .self
    · cases v with
      | list items => exact .list hu h
      | tuple items => exact .tuple hu h
      | set items => exact .set hu h
      | path items => exact .path hu h
      | map es =>
          obtain ⟨e, he, rfl⟩ := List.mem_map.mp hu
          exact .map he h
      | vertex id label => exact .vertex _ (List.mem_singleton.mp hu ▸ h)
      | edge id label outId outLabel inId inLabel =>
          simp only [parts, List.mem_cons, List.not_mem_nil, or_false] at hu
          rcases hu with rfl | rfl | rfl
          · exact .edge _ _ _ _ _ h
          · exact .origin _ _ _ _ _ h
          · exact .target _ _ _ _ _ h
      | vertexProperty id label value =>
          exact .vertexProperty _ _ (List.mem_singleton.mp hu ▸ h)
      | property key value => exact .property _ (List.mem_singleton.mp hu ▸ h)
      | traverser object => exact .traverser (List.mem_singleton.mp hu ▸ h)
      | _ => cases hu

private theorem labelsAre_iff :
    LabelsAre p v ↔ Labelled p v ∧ ∀ u ∈ parts v, LabelsAre p u := by
  constructor
  · intro h
    exact ⟨h v .self, fun u hu w hw => h w (shown_iff.mpr (.inr ⟨u, hu, hw⟩))⟩
  · rintro ⟨hown, hparts⟩ w hw
    rcases shown_iff.mp hw with rfl | ⟨u, hu, hw⟩
    · exact hown
    · exact hparts u hu w hw

theorem LabelsAre.mono (h : LabelsAre p v) (hpq : ∀ label, p label → q label) :
    LabelsAre q v := by
  intro w hw
  have hlabels := h w hw
  cases w with
  | vertex id label => exact hpq label hlabels
  | edge id label outId outLabel inId inLabel =>
      exact ⟨hpq _ hlabels.1, hpq _ hlabels.2.1, hpq _ hlabels.2.2⟩
  | _ => trivial

-- ============================================================ the second pass

/-- Entries that are left stay, whatever becomes of their values: no key
changes any more, and no two are the same. -/
theorem left_normal (f : Value → Value) (es : Entries) :
    left ((left es).map fun e => (e.1, f e.2))
      = (left es).map fun e => (e.1, f e.2) := by
  have hkey : ∀ e ∈ left es, normalKey e.1 = e.1 := by
    intro e he
    have hplain := isSymbol_of_left he
    cases hk : e.1 with
    | symbol s => rw [hk] at hplain; cases hplain
    | _ => rfl
  have hkeys : ((left es).map fun e => (e.1, f e.2)).map
      (fun e => (normalKey e.1, e.2))
        = (left es).map fun e => (e.1, f e.2) := by
    rw [List.map_map]
    exact List.map_congr_left fun e he => congrArg (·, f e.2) (hkey e he)
  have hapart : Entries.ofList (left es) = left es :=
    (Entries.isMapping_ofList _).ofList_eq
  calc left ((left es).map fun e => (e.1, f e.2))
      = Entries.ofList ((left es).map fun e => (e.1, f e.2)) :=
        congrArg Entries.ofList hkeys
    _ = (Entries.ofList (left es)).map fun e => (e.1, f e.2) :=
      Entries.ofList_map f _
    _ = (left es).map fun e => (e.1, f e.2) := by rw [hapart]

/-- An element in normal form is a mapping under two texts. -/
private theorem normalize_elementMap (id label : Value) :
    normalize (elementMap id label)
      = elementMap (normalize id) (normalize label) := rfl

private theorem elementMap_inj {id id' label label' : Value} :
    elementMap id label = elementMap id' label'
      ↔ id = id' ∧ label = label' := by
  simp [elementMap]

/-- What has items stands when these do. -/
private theorem items_again_iff
    (hnormal : normalize w = .list (normalizeAll items))
    (hparts : parts w = items) (hown : Labelled p w)
    (ih : ∀ v ∈ items, normalize (normalize v) = normalize v ↔ LabelsAre p v) :
    normalize (normalize w) = normalize w ↔ LabelsAre p w := by
  have hagain : normalize (normalize w)
      = .list (items.map fun v => normalize (normalize v)) := by
    rw [hnormal, normalize, normalizeAll_eq_map, normalizeAll_eq_map,
      List.map_map]
    rfl
  rw [hagain, hnormal, normalizeAll_eq_map, Value.list.injEq,
    List.map_inj_left, labelsAre_iff, hparts]
  exact (forall₂_congr ih).trans (and_iff_right hown).symm

/-- What stands for one value stands when that does. -/
private theorem part_again_iff (v : Value)
    (hnormal : normalize w = normalize v)
    (hparts : parts w = [v]) (hown : Labelled p w)
    (ih : normalize (normalize v) = normalize v ↔ LabelsAre p v) :
    normalize (normalize w) = normalize w ↔ LabelsAre p w := by
  rw [hnormal, ih, labelsAre_iff (v := w), hparts, List.forall_mem_singleton]
  exact (and_iff_right hown).symm

mutual

/-- A result stands just when the labels of all elements that are shown in it
do. -/
theorem normalize_normalize_iff :
    ∀ v : Value, normalize (normalize v) = normalize v
      ↔ LabelsAre (fun label => normalize label = label) v
  | .list items => items_again_iff rfl rfl trivial (normalizeAll_again items)
  | .tuple items => items_again_iff rfl rfl trivial (normalizeAll_again items)
  | .set items => items_again_iff rfl rfl trivial (normalizeAll_again items)
  | .path objects =>
      items_again_iff rfl rfl trivial (normalizeAll_again objects)
  | .vertexProperty _ _ value =>
      part_again_iff value rfl rfl trivial (normalize_normalize_iff value)
  | .property _ value =>
      part_again_iff value rfl rfl trivial (normalize_normalize_iff value)
  | .traverser object =>
      part_again_iff object rfl rfl trivial (normalize_normalize_iff object)
  | .map es => by
      -- the entries left are entries of the original, each with its own
      -- hypothesis
      have hvalues : ∀ e ∈ left es, normalize (normalize e.2) = normalize e.2 ↔
          LabelsAre (fun label => normalize label = label) e.2 := by
        intro e he
        obtain ⟨-, d, hd, hde⟩ := Entries.mem_ofList he
        obtain ⟨c, hc, rfl⟩ := List.mem_map.mp hd
        rw [← hde]
        exact normalizeEntries_again es c hc
      rw [normalize_map, normalize_map, left_normal, List.map_map,
        Value.map.injEq, List.map_inj_left, labelsAre_iff, parts,
        List.forall_mem_map]
      refine Iff.trans (forall₂_congr fun e he => ?_)
        (and_iff_right trivial).symm
      rw [← hvalues e he]
      exact Prod.ext_iff.trans (and_iff_right rfl)
  | .vertex id label => by
      rw [labelsAre_iff, normalize, normalize_elementMap, elementMap_inj,
        normalize_normalize_iff id, parts, List.forall_mem_singleton]
      exact and_comm
  | .edge id label outId outLabel inId inLabel => by
      have hagain :
          normalize (normalize (.edge id label outId outLabel inId inLabel))
            = .map [(.text "id", normalize (normalize id)),
            (.text "label", normalize label),
            (.text "OUT",
              elementMap (normalize (normalize outId)) (normalize outLabel)),
              (.text "IN",
                elementMap (normalize (normalize inId))
                  (normalize inLabel))] := rfl
      rw [hagain, normalize, labelsAre_iff]
      simp only [Value.map.injEq, List.cons.injEq, Prod.mk.injEq, true_and,
        and_true, elementMap_inj, normalize_normalize_iff id,
        normalize_normalize_iff outId, normalize_normalize_iff inId, Labelled,
        parts, List.forall_mem_cons, List.not_mem_nil, false_imp_iff,
        implies_true]
      tauto
  | .null | .bool _ | .int _ | .float _ | .text _ | .bytes _ | .date _
  | .dateTime _ | .symbol _ | .datatype _ | .predicate .. | .traversal _
  | .foreign .. => by
      rw [labelsAre_iff]
      exact iff_of_true rfl ⟨trivial, fun _ hu => absurd hu List.not_mem_nil⟩

theorem normalizeAll_again : ∀ items : List Value, ∀ v ∈ items,
    normalize (normalize v) = normalize v
      ↔ LabelsAre (fun label => normalize label = label) v
  | [], _, hv => absurd hv List.not_mem_nil
  | u :: items, v, hv => by
      have hhere := normalize_normalize_iff u
      have hbehind := normalizeAll_again items v
      rcases List.mem_cons.mp hv with rfl | hv
      · exact hhere
      · exact hbehind hv

theorem normalizeEntries_again : ∀ es : Entries, ∀ e ∈ es,
    normalize (normalize e.2) = normalize e.2
      ↔ LabelsAre (fun label => normalize label = label) e.2
  | [], _, he => absurd he List.not_mem_nil
  | (k, u) :: es, e, he => by
      have hhere := normalize_normalize_iff u
      have hbehind := normalizeEntries_again es e
      rcases List.mem_cons.mp he with rfl | he
      · exact hhere
      · exact hbehind he

end

/-- Whatever the driver gives, with texts for the labels of elements, its
normal form is left as it is by another pass: values, keys and their order. -/
theorem normalize_again (h : LabelsAre IsText v) :
    normalize (normalize v) = normalize v := by
  refine (normalize_normalize_iff v).mpr (h.mono ?_)
  rintro label ⟨s, rfl⟩
  rfl

/-- Entries under a reserved key and under the text that it becomes, with an
element below whose id is a member of a vocabulary. -/
def crowdedEntries : Entries :=
  [(.labelKey, .int 1),
    (.text "label", .set [.vertex .idKey (.text "Person")])]

/-- The first pass merges the two entries, and the second one changes
nothing. -/
theorem normalize_again_crowded : LabelsAre IsText (.map crowdedEntries) ∧
    (left crowdedEntries).length < crowdedEntries.length ∧
    normalize (normalize (.map crowdedEntries)) = normalize
    (.map crowdedEntries) := by
  have hvertex : LabelsAre IsText (.vertex .idKey (.text "Person")) := by
    refine labelsAre_iff.mpr ⟨⟨"Person", rfl⟩, fun u hu => ?_⟩
    rw [List.mem_singleton.mp hu]
    exact labelsAre_iff.mpr ⟨trivial, fun _ hu => absurd hu List.not_mem_nil⟩
  have htexts : LabelsAre IsText (.map crowdedEntries) := by
    refine labelsAre_iff.mpr ⟨trivial, fun u hu => ?_⟩
    rw [show u = .set [.vertex .idKey (.text "Person")]
      from List.mem_singleton.mp hu]
    refine labelsAre_iff.mpr ⟨trivial, fun w hw => ?_⟩
    rwa [List.mem_singleton.mp hw]
  exact ⟨htexts, by decide, normalize_again htexts⟩

end Result

end GraphMapper

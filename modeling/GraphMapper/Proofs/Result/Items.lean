/-
What a row comes to before it is a record.

Rows of one element that were asked for different keys hold much the same: the
id, the references to the ends if it is an edge, and no label. Whatever
properties have these names, or those of the ends, they make no difference
(`ownNames`). All else is what the element has under the keys that were asked
for (`Holds`). So two rows of an element differ only under what one of them was
asked for and the other was not (`Holds.agree`).

An edge has no row to be read if one of its ends has no text for its label or
its id, and that again is no matter of the keys (`references`).

Main statements: `item_of_references`, `references_of_item`.
-/
import GraphMapper.Proofs.Graph.Columns

namespace GraphMapper

variable {g : Graph} {e : Element} {keys keys' : List Value}
  {item item' : Entries} {key : Value} {f : Face}
  {refs : Option (Value × Value)} {edge : Bool}

/-- The properties are a mapping, none is under the member of a vocabulary, and
none is named `id`. -/
structure Element.IsPlain (e : Element) : Prop where
  mapping : Entries.IsMapping e.props
  noSymbol : ∀ p ∈ e.props, ∀ s, p.1 ≠ .symbol s
  id : ∀ p ∈ e.props, p.1.face? ≠ some (.text "id")

/-- Properties under different texts are plain, if none of these is `id`. -/
theorem Element.isPlain_of_texts (names : List String)
    (hkeys : Entries.keys e.props = names.map .text) (hnodup : names.Nodup)
    (hid : "id" ∉ names) : e.IsPlain := by
  have htext : ∀ p ∈ e.props, ∃ s ∈ names, p.1 = .text s := by
    intro p hp
    have hmem : p.1 ∈ names.map Value.text := hkeys ▸ List.mem_map_of_mem hp
    obtain ⟨s, hs, heq⟩ := List.mem_map.mp hmem
    exact ⟨s, hs, heq.symm⟩
  refine ⟨Entries.isMapping_of_texts hkeys hnodup, fun p hp s hs => ?_,
    fun p hp hface => ?_⟩
  · obtain ⟨t, -, ht⟩ := htext p hp
    rw [ht] at hs
    cases hs
  · obtain ⟨t, ht, heq⟩ := htext p hp
    rw [heq] at hface
    exact hid (Face.text.inj (Option.some.inj hface) ▸ ht)

private theorem Element.IsPlain.isMapping_chosen (h : e.IsPlain)
    (keys : List Value) :
    Entries.IsMapping (e.chosen keys) := h.mapping.sublist List.filter_sublist

private theorem Element.IsPlain.mem_chosen (h : e.IsPlain) {p : Value × Value}
    (hp : p ∈ e.chosen keys) :
    (∀ s, p.1 ≠ .symbol s) ∧ p.1.face? ≠ some (.text "id") :=
  ⟨h.noSymbol p (List.mem_filter.mp hp).1, h.id p (List.mem_filter.mp hp).1⟩

namespace Result

open Entries (lookup?)

-- ================================================================= references

/-- What an end is referred to by. -/
def reference (e : Element) : Checked Value := do
  let label ← (normalize e.label).plain
  let id ← (normalize e.id).plain
  .ok (.text (label ++ "/" ++ id))

/-- The references of an element to its ends, if it is an edge. -/
def references (g : Graph) (e : Element) : Checked (Option (Value × Value)) :=
  match e.ends with
  | none => .ok none
  | some ends =>
    match ends.target with
    | some target => do
      let origin ← reference (g.element ends.origin)
      .ok (some (origin, ← reference (g.element target)))
    | none => .error (.slip .attribute)

private theorem withReference_reference (field : String) (e : Element)
    (es : Entries) : withReference field
      (.map [(.text "id", normalize e.id), (.text "label", normalize e.label)])
        es = (reference e).map fun r => Entries.insert (.text field) r es := by
  show ((normalize e.label).plain >>= fun label => (normalize e.id).plain
      >>= fun id =>
    Except.ok (Entries.insert (.text field) (.text (label ++ "/" ++ id)) es))
        = _
  unfold reference
  cases (normalize e.label).plain with
  | error e => rfl
  | ok label =>
      cases (normalize e.id).plain with
      | error e => rfl
      | ok id => rfl

-- ================================================================== the names

/-- The names under which items hold nothing of the properties. -/
def ownNames (edge : Bool) : List String :=
  if edge then ["id", "label", "from", "to", "IN", "OUT"] else ["id", "label"]

/-- What an item holds that was asked for some keys. -/
structure Holds (e : Element) (keys : List Value)
    (refs : Option (Value × Value)) (item : Entries) :
    Prop where
  id : lookup? (.text "id") item = some (normalize e.id)
  label : lookup? (.text "label") item = none
  origin : ∀ r, refs = some r → lookup? (.text "from") item = some r.1
  target : ∀ r, refs = some r → lookup? (.text "to") item = some r.2
  inward : refs.isSome = true → lookup? (.text "IN") item = none
  outward : refs.isSome = true → lookup? (.text "OUT") item = none
  others : ∀ {key f},
    key.face? = some f → (∀ s ∈ ownNames refs.isSome, f ≠ .text s) →
    lookup? key item = (lookup? key (e.chosen keys)).map normalize

/-- Two rows of an element agree under what both were asked for. -/
theorem Holds.agree (h : Holds e keys refs item)
    (h' : Holds e keys' refs item') (hkey : key.face? = some f)
    (hsame : (∀ s ∈ ownNames refs.isSome, f ≠ .text s) →
      lookup? key (e.chosen keys) = lookup? key (e.chosen keys')) :
    lookup? key item = lookup? key item' := by
  by_cases hown : ∀ s ∈ ownNames refs.isSome, f ≠ .text s
  · rw [h.others hkey hown, h'.others hkey hown, hsame hown]
  · push Not at hown
    obtain ⟨s, hs, rfl⟩ := hown
    rw [Entries.lookup?_congr hkey (show (Value.text s).face? = _ from rfl),
      Entries.lookup?_congr hkey (show (Value.text s).face? = _ from rfl)]
    unfold ownNames at hs
    cases refs with
    | none =>
        simp only [Option.isSome_none, Bool.false_eq_true, if_false,
          List.mem_cons, List.not_mem_nil, or_false] at hs
        rcases hs with rfl | rfl
        · rw [h.id, h'.id]
        · rw [h.label, h'.label]
    | some r =>
        simp only [Option.isSome_some, if_true, List.mem_cons,
          List.not_mem_nil, or_false] at hs
        rcases hs with rfl | rfl | rfl | rfl | rfl | rfl
        · rw [h.id, h'.id]
        · rw [h.label, h'.label]
        · rw [h.origin r rfl, h'.origin r rfl]
        · rw [h.target r rfl, h'.target r rfl]
        · rw [h.inward rfl, h'.inward rfl]
        · rw [h.outward rfl, h'.outward rfl]

-- =================================================================== the rows

/-- Id and label, the properties, and what stands behind them, as one
mapping. -/
def merged (e : Element) (chosen ends : Entries) : Entries :=
  Entries.ofList
    ((.text "id", normalize e.id) :: (.text "label", normalize e.label)
      :: (normalValues chosen ++ ends))

private theorem isMapping_merged (chosen ends : Entries) :
    Entries.IsMapping (merged e chosen ends) :=
  Entries.IsMapping.insertions .nil

/-- The later ones are found. -/
private theorem lookup?_merged {chosen ends : Entries}
    (hkey : key.face? = some f)
    (hchosen : Entries.IsMapping chosen) (hends : Entries.IsMapping ends) :
    lookup? key (merged e chosen ends) = (lookup? key ends).or
      (((lookup? key chosen).map normalize).or
        (lookup? key [(.text "id", normalize e.id),
          (.text "label", normalize e.label)])) := by
  have hvalues : Entries.IsMapping (normalValues chosen) :=
    List.pairwise_map.mpr hchosen
  unfold merged Entries.ofList
  rw [List.foldl_cons, List.foldl_cons, List.foldl_append,
    Entries.lookup?_insertions hkey hends,
    Entries.lookup?_insertions hkey hvalues, lookup?_normalValues]
  rfl

/-- Where neither the ends nor the properties have something, there is the id
or the label. -/
private theorem lookup?_merged_of_none {chosen ends : Entries} {s : String}
    (hchosen : Entries.IsMapping chosen) (hends : Entries.IsMapping ends)
    (hnone : lookup? (.text s) ends = none)
    (hprops : ∀ p ∈ chosen, p.1.face? ≠ some (.text s)) :
    lookup? (.text s) (merged e chosen ends)
      = lookup? (.text s) [(.text "id", normalize e.id),
        (.text "label", normalize e.label)] := by
  rw [lookup?_merged (show (Value.text s).face? = _ from rfl) hchosen hends,
    hnone, Option.none_or, Entries.lookup?_eq_none (show (Value.text s).face?
      = _ from rfl) hprops, Option.map_none,
    Option.none_or]

/-- Nothing else is found than what the properties have. -/
private theorem lookup?_merged_other {chosen ends : Entries}
    (hkey : key.face? = some f) (hchosen : Entries.IsMapping chosen)
    (hends : Entries.IsMapping ends) (hnone : lookup? key ends = none)
    (hid : f ≠ .text "id") (hlabel : f ≠ .text "label") :
    lookup? key (merged e chosen ends)
      = (lookup? key chosen).map normalize := by
  have hbase : lookup? key [(.text "id", normalize e.id),
      (.text "label", normalize e.label)] = none := by
    refine Entries.lookup?_eq_none hkey fun p hp hface => ?_
    simp only [List.mem_cons, List.not_mem_nil, or_false] at hp
    rcases hp with rfl | rfl
    · exact hid (Option.some.inj hface).symm
    · exact hlabel (Option.some.inj hface).symm
  rw [lookup?_merged hkey hchosen hends, hnone, Option.none_or, hbase,
    Option.or_none]

private theorem normalize_reference (chosen ends : Entries)
    (hplain : ∀ p ∈ chosen, ∀ s, p.1 ≠ .symbol s) :
    normalize (.map (Graph.reference e ++ chosen ++ ends))
      = .map (merged e chosen (normalizeEntries ends)) := by
  have hentries : normalizeEntries (Graph.reference e ++ chosen ++ ends)
      = (.text "id", normalize e.id) :: (.text "label", normalize e.label)
        :: (normalValues chosen ++ normalizeEntries ends) := by
    rw [normalizeEntries_eq_map, List.map_append, List.map_append,
      ← normalizeEntries_eq_map chosen, normalizeEntries_of_plain hplain,
      ← normalizeEntries_eq_map ends]
    rfl
  rw [normalize, hentries]
  rfl

-- =================================================================== vertices

/-- The item of a vertex. -/
private theorem item_vertex (hends : e.ends = none) (h : e.IsPlain)
    (keys : List Value) :
    ∃ item, (g.row keys e >>= ofRow false) = .ok (.map item) ∧
      Holds e keys none item := by
  have hplain : ∀ p ∈ e.chosen keys, ∀ s, p.1 ≠ .symbol s :=
    fun p hp => (h.mem_chosen hp).1
  have hchosen := h.isMapping_chosen keys
  have hid : ∀ p ∈ e.chosen keys, p.1.face? ≠ some (.text "id") :=
    fun p hp => (h.mem_chosen hp).2
  -- the row without its label, then what it holds under each kind of key
  refine ⟨Entries.erase (.text "label") (merged e (e.chosen keys) []), ?_, ?_,
    ?_, ?_, ?_, ?_, ?_, ?_⟩
  · rw [Graph.row_vertex hends hchosen hplain]
    show record false (normalize (.map (Graph.reference e ++ e.chosen keys)))
        = _
    rw [← List.append_nil (Graph.reference e ++ _),
      normalize_reference _ _ hplain]
    rfl
  · rw [Entries.lookup?_erase_of_ne (show (Value.text "id").face? = _ from rfl)
      (by simp [Value.face?]), lookup?_merged_of_none hchosen .nil rfl hid]
    rfl
  · exact (isMapping_merged _ _).lookup?_erase rfl
  · rintro r hr
    cases hr
  · rintro r hr
    cases hr
  · intro hr
    cases hr
  · intro hr
    cases hr
  · intro key f hkey hown
    have hlabel : f ≠ .text "label" := hown "label" (by decide)
    have hother : (Value.text "label").face? ≠ some f :=
      fun heq => hlabel (Option.some.inj heq).symm
    rw [Entries.lookup?_erase_of_ne hkey hother]
    exact lookup?_merged_other hkey hchosen .nil rfl
      (hown "id" (by decide)) hlabel

-- ====================================================================== edges

/-- The ends of an edge in normal form. -/
def shownEnds (g : Graph) (o t : Handle) : Entries :=
  [(.text "IN", .map [(.text "id", normalize (g.element t).id),
      (.text "label", normalize (g.element t).label)]),
    (.text "OUT", .map [(.text "id", normalize (g.element o).id),
      (.text "label", normalize (g.element o).label)])]

private theorem isMapping_shownEnds (g : Graph) (o t : Handle) :
    Entries.IsMapping (shownEnds g o t) :=
  List.pairwise_pair.mpr (show (Value.text "IN").sameKey (.text "OUT")
      = false by decide)

private theorem row_ends {o t : Handle} (hends : e.ends = some ⟨o, some t⟩)
    (h : e.IsPlain) (keys : List Value) :
    g.row keys e
      = .ok (Graph.reference e ++ e.chosen keys ++ g.endsShown o t) := by
  -- reference, properties and ends share no key, so the row is their
  -- concatenation
  have hapart : Entries.IsMapping
      (Graph.reference e ++ (e.chosen keys ++ g.endsShown o t)) := by
    have hdirection : ∀ p ∈ g.endsShown o t, ∃ d,
        p.1 = .symbol (.direction d) := by
      intro p hp
      simp only [Graph.endsShown, List.mem_cons, List.not_mem_nil,
        or_false] at hp
      rcases hp with rfl | rfl <;> exact ⟨_, rfl⟩
    have hends' : Entries.IsMapping (g.endsShown o t) :=
      List.pairwise_pair.mpr rfl
    refine List.pairwise_append.mpr ⟨List.pairwise_pair.mpr rfl,
      List.pairwise_append.mpr ⟨h.isMapping_chosen keys, hends',
        fun a ha b hb => ?_⟩, fun a ha b hb => ?_⟩
    · obtain ⟨d, hd⟩ := hdirection b hb
      rw [hd, Bool.eq_false_iff]
      exact fun hsame =>
        (h.mem_chosen ha).1 _ (Value.eq_direction_of_sameKey hsame)
    · simp only [Graph.reference, List.mem_cons, List.not_mem_nil,
        or_false] at ha
      have hne : ∀ r, b.1 ≠ .symbol (.reserved r) := by
        intro r
        rcases List.mem_append.mp hb with hb | hb
        · exact (h.mem_chosen hb).1 _
        · obtain ⟨d, hd⟩ := hdirection b hb
          rw [hd]
          intro heq
          cases heq
      rcases ha with rfl | rfl
      · exact Bool.eq_false_iff.mpr fun hsame =>
          hne .id (Value.eq_reserved_of_sameKey hsame)
      · exact Bool.eq_false_iff.mpr fun hsame =>
          hne .label (Value.eq_reserved_of_sameKey hsame)
  unfold Graph.row
  rw [hends]
  show Except.ok ((e.chosen keys ++ g.endsShown o t).foldl
    (fun (acc : Entries) (p : Value × Value) => Entries.insert p.1 p.2 acc)
      (Graph.reference e)) = _
  rw [Entries.foldl_insert hapart, List.append_assoc]

/-- An entry that is left when an edge gets its references. -/
def staysWithEdge (p : Value × Value) : Bool :=
  !p.1.isIn endKeys && !p.1.equal (.text "label")

private theorem staysWithEdge_iff {p : Value × Value}
    (hkey : p.1.face? = some f) :
    staysWithEdge p = true ↔ f ≠ .text "IN" ∧ f ≠ .text "OUT" ∧
      f ≠ .text "label" := by
  have hin : p.1.isIn endKeys = true ↔ f = .text "IN" ∨ f = .text "OUT" := by
    unfold Value.isIn endKeys
    simp only [List.any_cons, List.any_nil, Bool.or_false, Bool.or_eq_true,
      Value.same_iff_face hkey, Value.face?, Option.some_inj]
    exact or_congr eq_comm eq_comm
  have hlabel : p.1.equal (.text "label") = true ↔ f = .text "label" := by
    rw [Value.equal_iff_face (show (Value.text "label").face? = _ from rfl),
      hkey, Option.some_inj]
  unfold staysWithEdge
  rw [Bool.and_eq_true, Bool.not_eq_true', Bool.not_eq_true',
    Bool.eq_false_iff, Bool.eq_false_iff, ne_eq, ne_eq, hin, hlabel,
    not_or, and_assoc]

/-- What a row of an edge comes to, if its ends can be referred to. -/
private theorem ofRow_ends {o t : Handle} (hends : e.ends = some ⟨o, some t⟩)
    (h : e.IsPlain) (keys : List Value) : (g.row keys e >>= ofRow true)
      = (reference (g.element o) >>= fun origin => reference (g.element t)
        >>= fun target =>
          .ok (.map (Entries.insert (.text "to") target
            (Entries.insert (.text "from") origin
              ((merged e (e.chosen keys) (shownEnds g o t)).filter
                staysWithEdge))))) := by
  have hplain : ∀ p ∈ e.chosen keys, ∀ s, p.1 ≠ .symbol s :=
    fun p hp => (h.mem_chosen hp).1
  have hlookup : ∀ {s : String} {v : Value},
      lookup? (.text s) (shownEnds g o t) = some v →
      Entries.field s (merged e (e.chosen keys) (shownEnds g o t)) = v := by
    intro s v hv
    unfold Entries.field Entries.get
    rw [lookup?_merged (show (Value.text s).face? = _ from rfl)
      (h.isMapping_chosen keys) (isMapping_shownEnds g o t), hv]
    rfl
  -- the row has its ends, so they are collapsed into references
  have hin : (endKeys.any fun k =>
      Entries.has k (merged e (e.chosen keys) (shownEnds g o t))) = true := by
    refine List.any_eq_true.mpr ⟨.text "IN", List.mem_cons_self, ?_⟩
    rw [Entries.has_eq_isSome,
      lookup?_merged (show (Value.text "IN").face? = _ from rfl)
        (h.isMapping_chosen keys) (isMapping_shownEnds g o t)]
    rfl
  rw [row_ends hends h keys]
  show record true (normalize
    (.map (Graph.reference e ++ e.chosen keys ++ g.endsShown o t))) = _
  rw [normalize_reference _ _ hplain]
  rw [show normalizeEntries (g.endsShown o t) = shownEnds g o t from rfl]
  unfold record
  simp only [hin, Bool.and_self, if_true]
  show (collapseEdge (merged e (e.chosen keys) (shownEnds g o t)) >>= fun es =>
    Except.ok (Value.map es)) = _
  unfold collapseEdge
  rw [hlookup (s := "IN") rfl, hlookup (s := "OUT") rfl]
  simp only [withReference_reference]
  cases reference (g.element o) with
  | error e => rfl
  | ok origin => cases reference (g.element t) <;> rfl

private theorem holds_ends {o t : Handle} (h : e.IsPlain) (keys : List Value)
    (origin target : Value) :
    Holds e keys (some (origin, target)) (Entries.insert (.text "to") target
      (Entries.insert (.text "from") origin
        ((merged e (e.chosen keys) (shownEnds g o t)).filter
          staysWithEdge))) := by
  have hchosen := h.isMapping_chosen keys
  have hends := isMapping_shownEnds g o t
  have hid : ∀ p ∈ e.chosen keys, p.1.face? ≠ some (.text "id") :=
    fun p hp => (h.mem_chosen hp).2
  -- three layers over the merged row: the references put in, what the edge
  -- drops, and the row
  have hput : ∀ {key : Value} {f : Face} (es : Entries),
      key.face? = some f → f ≠ .text "from" → f ≠ .text "to" →
      lookup? key (Entries.insert (.text "to") target
        (Entries.insert (.text "from") origin es)) = lookup? key es := by
    intro key f es hkey hfrom hto
    have hto' : (Value.text "to").face? ≠ some f :=
      fun heq => hto (Option.some.inj heq).symm
    have hfrom' : (Value.text "from").face? ≠ some f :=
      fun heq => hfrom (Option.some.inj heq).symm
    rw [Entries.lookup?_insert_of_ne hkey hto',
      Entries.lookup?_insert_of_ne hkey hfrom']
  have hleft : ∀ {key : Value} {f : Face}, key.face? = some f →
      (f ≠ .text "IN" ∧ f ≠ .text "OUT" ∧ f ≠ .text "label") →
      lookup? key ((merged e (e.chosen keys) (shownEnds g o t)).filter
        staysWithEdge)
        = lookup? key (merged e (e.chosen keys) (shownEnds g o t)) := by
    intro key f hkey hstays
    refine Entries.lookup?_filter fun p _ hsame => ?_
    exact (staysWithEdge_iff ((Value.sameKey_iff_face hkey).mp hsame)).mpr
      hstays
  have hgone : ∀ {s : String}, s = "IN" ∨ s = "OUT" ∨ s = "label" →
      lookup? (.text s)
        ((merged e (e.chosen keys) (shownEnds g o t)).filter staysWithEdge)
        = none := by
    intro s hs
    refine Entries.lookup?_eq_none (show (Value.text s).face? = _ from rfl)
      fun p hp hface => ?_
    obtain ⟨hin, hout, hlabel⟩ :=
      (staysWithEdge_iff hface).mp (List.mem_filter.mp hp).2
    rcases hs with rfl | rfl | rfl
    · exact hin rfl
    · exact hout rfl
    · exact hlabel rfl
  refine ⟨?_, ?_, ?_, ?_, ?_, ?_, ?_⟩
  · rw [hput _ (show (Value.text "id").face? = _ from rfl) (by simp) (by simp),
      hleft (show (Value.text "id").face? = _ from rfl) (by simp),
      lookup?_merged_of_none hchosen hends rfl hid]
    rfl
  · rw [hput _ (show (Value.text "label").face? = _ from rfl)
      (by simp) (by simp)]
    exact hgone (.inr (.inr rfl))
  · rintro r hr
    rw [← Option.some.inj hr,
      Entries.lookup?_insert_of_ne (show (Value.text "from").face?
        = _ from rfl) (by simp [Value.face?]), Entries.lookup?_insert_self rfl]
  · rintro r hr
    rw [← Option.some.inj hr, Entries.lookup?_insert_self rfl]
  · intro _
    rw [hput _ (show (Value.text "IN").face? = _ from rfl) (by simp) (by simp)]
    exact hgone (.inl rfl)
  · intro _
    rw [hput _ (show (Value.text "OUT").face? = _ from rfl)
      (by simp) (by simp)]
    exact hgone (.inr (.inl rfl))
  · intro key f hkey hown
    replace hown : ∀ s ∈ ownNames true, f ≠ .text s := hown
    have hin : f ≠ .text "IN" := hown "IN" (by decide)
    have hout : f ≠ .text "OUT" := hown "OUT" (by decide)
    have hlabel : f ≠ .text "label" := hown "label" (by decide)
    have hnone : lookup? key (shownEnds g o t) = none := by
      refine Entries.lookup?_eq_none hkey fun p hp hface => ?_
      simp only [shownEnds, List.mem_cons, List.not_mem_nil, or_false] at hp
      rcases hp with rfl | rfl
      · exact hin (Option.some.inj hface).symm
      · exact hout (Option.some.inj hface).symm
    rw [hput _ hkey (hown "from" (by decide)) (hown "to" (by decide)),
      hleft hkey ⟨hin, hout, hlabel⟩]
    exact lookup?_merged_other hkey hchosen hends hnone
      (hown "id" (by decide)) hlabel

-- ======================================================================= both

/-- An element whose ends can be referred to, if it has any, has an item. -/
theorem item_of_references (hkind : edge = e.isEdge) (h : e.IsPlain)
    (hrefs : references g e = .ok refs) (keys : List Value) :
    ∃ item, (g.row keys e >>= ofRow edge) = .ok (.map item) ∧
      Holds e keys refs item ∧ refs.isSome = edge := by
  unfold references at hrefs
  cases hends : e.ends with
  | none =>
      rw [hends] at hrefs
      obtain rfl : none = refs := Except.ok.inj hrefs
      obtain rfl : edge = false := by rw [hkind, Element.isEdge, hends]; rfl
      obtain ⟨item, hitem, hholds⟩ := item_vertex (g := g) hends h keys
      exact ⟨item, hitem, hholds, rfl⟩
  | some ends =>
      obtain ⟨o, target⟩ := ends
      obtain rfl : edge = true := by rw [hkind, Element.isEdge, hends]; rfl
      rw [hends] at hrefs
      cases target with
      | none => cases hrefs
      | some t =>
          obtain ⟨origin, horigin, hrefs⟩ := bind_eq_ok hrefs
          obtain ⟨target, htarget, hrefs⟩ := bind_eq_ok hrefs
          rw [← Except.ok.inj hrefs]
          refine ⟨_, ?_,
            holds_ends (g := g) (o := o) (t := t) h keys origin target, rfl⟩
          rw [ofRow_ends hends h keys]
          show (reference (g.element o) >>= _) = _
          rw [show reference (g.element o) = .ok origin from horigin]
          show (reference (g.element t) >>= _) = _
          rw [show reference (g.element t) = .ok target from htarget]
          rfl

/-- And no other element has one. -/
theorem references_of_item (hkind : edge = e.isEdge) (h : e.IsPlain)
    {v : Value} (hitem : (g.row keys e >>= ofRow edge) = .ok v) :
    ∃ refs, references g e = .ok refs := by
  unfold references
  cases hends : e.ends with
  | none => exact ⟨none, rfl⟩
  | some ends =>
      obtain ⟨o, target⟩ := ends
      obtain rfl : edge = true := by rw [hkind, Element.isEdge, hends]; rfl
      cases target with
      | none =>
          unfold Graph.row at hitem
          rw [hends] at hitem
          cases hitem
      | some t =>
          rw [ofRow_ends hends h keys] at hitem
          obtain ⟨origin, horigin, hitem⟩ := bind_eq_ok hitem
          obtain ⟨target, htarget, -⟩ := bind_eq_ok hitem
          refine ⟨some (origin, target), ?_⟩
          show (reference (g.element o) >>= fun origin =>
              reference (g.element t) >>= fun target =>
            Except.ok (some (origin, target))) = _
          rw [horigin]
          show (reference (g.element t) >>= fun target =>
            Except.ok (some (origin, target))) = _
          rw [htarget]
          rfl

end Result

end GraphMapper

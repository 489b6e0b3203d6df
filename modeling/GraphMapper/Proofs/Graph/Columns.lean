/-
What a row has under a key.

A row has the properties of its element under the keys that it was asked for
(`Asks`), and the id of the element, whatever else it shows. So what rows are
sorted by is what the elements have (`read_row`), as long as no property takes
the place of the id; and rows that have been asked for different keys are
sorted alike if they have all been asked for those that they are sorted by.

# What takes the place of an id

A row begins with the id under a reserved key. A property is put into the row
under its own key, and if that is the same key, it replaces the id. So the
statements on the id ask that no property is stored under it.

Chain: `Result.Edges` for the entries of a row; `Query.Arranging` sorts
elements in the place of rows by this.
-/
import GraphMapper.Proofs.Filter.Meaning
import GraphMapper.Proofs.Result.Edges

namespace GraphMapper

variable {g : Graph} {e : Element} {keys : List Value} {row : Entries}
  {key : Value} {f : Face}

/-- A reserved key is the same as nothing else. -/
theorem Value.eq_reserved_of_sameKey {v : Value} {r : Reserved}
    (h : (Value.symbol (.reserved r)).sameKey v = true) :
    v = .symbol (.reserved r) := by
  unfold sameKey at h
  rw [Bool.and_eq_true] at h
  obtain ⟨h, -⟩ := h
  cases v with
  | symbol s =>
      cases s with
      | reserved r' => cases r <;> cases r' <;> first | rfl | cases h
      | fieldType t => cases h
      | direction d => cases h
      | _ => cases h
  | _ => cases h

/-- What an element has under a key that is no reserved one is its property. -/
theorem Element.at?_of_face (hkey : key.face? = some f) (e : Element) :
    e.at? key = Entries.lookup? key e.props := by
  cases key with
  | symbol s =>
      cases s with
      | reserved r => cases hkey
      | _ => rfl
  | _ => rfl

/-- Keys ask for a property if it is under one of them, or if there are none,
which is to ask for all properties. -/
def Asks (keys : List Value) (f : Face) : Prop :=
  keys = [] ∨ ∃ k ∈ keys, k.face? = some f

private theorem asks_iff (hkey : key.face? = some f) :
    Asks keys f ↔ (keys.isEmpty || key.isIn keys) = true := by
  unfold Asks Value.isIn
  rw [Bool.or_eq_true, List.isEmpty_iff, List.any_eq_true]
  simp only [Value.same_iff_face hkey]

/-- Nothing is left out that has been asked for. -/
theorem lookup?_chosen_of_asks (hkey : key.face? = some f) (h : Asks keys f) :
    Entries.lookup? key (e.chosen keys) = Entries.lookup? key e.props := by
  refine Entries.lookup?_filter fun p _ hsame => ?_
  exact (asks_iff ((Value.sameKey_iff_face hkey).mp hsame)).mp h

/-- Nothing else is there. -/
theorem lookup?_chosen_of_not_asks (hkey : key.face? = some f)
    (h : ¬Asks keys f) :
    Entries.lookup? key (e.chosen keys) = none := by
  refine Entries.lookup?_eq_none hkey fun p hp hface => h ?_
  exact (asks_iff hface).mpr (List.mem_filter.mp hp).2

namespace Graph

/-- The entries that are put into a row. -/
private theorem row_eq_ok (h : g.row keys e = .ok row) : ∃ ends : Entries,
    (∀ p ∈ ends, ∃ d, p.1 = .symbol (.direction d)) ∧ Entries.IsMapping ends ∧
      row = (e.chosen keys ++ ends).foldl
      (fun acc p => Entries.insert p.1 p.2 acc) (reference e) := by
  unfold Graph.row at h
  cases hends : e.ends with
  | none =>
      rw [hends] at h
      exact ⟨[], fun _ hp => (nomatch hp), .nil, (Except.ok.inj h).symm⟩
  | some ends =>
      rw [hends] at h
      obtain ⟨shown, hshown, h⟩ := bind_eq_ok h
      unfold endRows at hshown
      split at hshown
      · rw [← Except.ok.inj hshown] at h
        refine ⟨_, ?_, List.pairwise_pair.mpr rfl, (Except.ok.inj h).symm⟩
        simp
      · cases hshown

/-- Under a key that no vocabulary has, there is the property if it has been
asked for. -/
private theorem lookup?_row (hprops : Entries.IsMapping e.props)
    (hkey : key.face? = some f) (h : g.row keys e = .ok row) :
    Entries.lookup? key row = Entries.lookup? key (e.chosen keys) := by
  obtain ⟨ends, hdirections, hends, rfl⟩ := row_eq_ok h
  have hchosen : Entries.IsMapping (e.chosen keys) :=
    hprops.sublist List.filter_sublist
  have hnone : Entries.lookup? key ends = none := by
    refine Entries.lookup?_eq_none hkey fun p hp hface => ?_
    obtain ⟨d, hd⟩ := hdirections p hp
    rw [hd] at hface
    cases hface
  have hreference : Entries.lookup? key (reference e) = none := by
    refine Entries.lookup?_eq_none hkey fun p hp hface => ?_
    simp only [reference, List.mem_cons, List.not_mem_nil, or_false] at hp
    rcases hp with rfl | rfl <;> cases hface
  rw [List.foldl_append, Entries.lookup?_insertions hkey hends, hnone,
    Option.none_or, Entries.lookup?_insertions hkey hchosen, hreference,
    Option.or_none]

/-- The id stands in front, unless a property is put in its place. -/
private theorem lookup?_row_id (hid : ∀ p ∈ e.props, p.1 ≠ .idKey)
    (h : g.row keys e = .ok row) :
    Entries.lookup? .idKey row = some e.id := by
  obtain ⟨ends, hdirections, -, rfl⟩ := row_eq_ok h
  have hstays : ∀ (more rest : Entries), (∀ p ∈ more, p.1 ≠ .idKey) →
      Entries.lookup? .idKey
        (more.foldl (fun acc p => Entries.insert p.1 p.2 acc)
        ((.idKey, e.id) :: rest)) = some e.id := by
    intro more
    induction more with
    | nil => exact fun _ _ => rfl
    | cons p more ih =>
        intro rest hmore
        have hother : ¬Value.idKey.sameKey p.1 = true := fun hsame =>
          hmore p List.mem_cons_self (Value.eq_reserved_of_sameKey hsame)
        rw [List.foldl_cons, Entries.insert, if_neg hother]
        exact ih _ fun q hq => hmore q (List.mem_cons_of_mem _ hq)
  refine hstays _ _ fun p hp => ?_
  rcases List.mem_append.mp hp with hp | hp
  · exact hid p (List.mem_filter.mp hp).1
  · obtain ⟨d, hd⟩ := hdirections p hp
    rw [hd]
    intro hsame
    cases hsame

end Graph

-- ==================================================================== sorting

variable {m : Model} {name : Value}

/-- What a field is sorted by is asked for: that is the id, which every row
has, or a property. -/
def Model.Reaches (m : Model) (keys : List Value) (name : Value) : Prop :=
  m.conditionKey name = .idKey ∨ ∃ f,
    (m.conditionKey name).face? = some f ∧ Asks keys f

/-- A row that has been asked for it has under the key of a field what its
element has there. -/
theorem Graph.read_row {k : Handle}
    (hprops : Entries.IsMapping (g.element k).props)
    (hid : ∀ p ∈ (g.element k).props, p.1 ≠ .idKey)
    (hname : m.Reaches keys name) (h : g.rowOf keys k = .ok row) :
    g.read (m.conditionKey name) (.row row)
      = .ok ((g.element k).at? (m.conditionKey name)) := by
  rcases hname with hname | ⟨f, hf, hasked⟩
  · rw [hname]
    exact congrArg Except.ok (lookup?_row_id hid h)
  · show Entries.find _ row = _
    unfold Entries.find
    rw [if_pos (Value.isKey_of_face hf), lookup?_row hprops hf h,
      lookup?_chosen_of_asks hf hasked, Element.at?_of_face hf]

end GraphMapper

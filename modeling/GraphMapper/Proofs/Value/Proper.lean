/-
Values that applications can make, and what is taken out of them and put
together from them.

In a proper value everything that is used as a key may be one
(`Value.isProper`). The parts of a proper value are proper. A mapping stays
proper when a proper value is written to it under a key that may be one, and
when an entry is taken away; so is what is read as a mapping from a row of
pairs.

Chain: `Value.Sameness` defines what is proper, `Value.Entries` has the
mappings; used by `Model.Definition` and `Graph.Properties`, and through them
wherever values of an application are put into steps.
-/
import GraphMapper.Proofs.Failure.Checked
import GraphMapper.Proofs.Value.Entries
import GraphMapper.Value.Conversion

namespace GraphMapper

/-- The arguments of the step are proper. -/
def Step.isProper : Step → Bool
  | .call _ args => Value.areProper args

namespace Value

variable {v : Value} {vs : List Value} {es : Entries} {steps more : List Step}

-- =================================================================== parts

/-- A row is proper if each item is. -/
theorem areProper_iff : areProper vs = true ↔ ∀ v ∈ vs, v.isProper = true := by
  induction vs with
  | nil => simp [areProper]
  | cons v vs ih => simp [areProper, ih]

/-- Steps are if each step is. -/
theorem stepsAreProper_iff :
    stepsAreProper steps = true ↔ ∀ s ∈ steps, s.isProper = true := by
  induction steps with
  | nil => simp [stepsAreProper]
  | cons s steps ih =>
      obtain ⟨name, args⟩ := s
      simp [stepsAreProper, Step.isProper, ih]

/-- Steps behind each other are if both parts are. -/
theorem stepsAreProper_append (h : stepsAreProper steps = true)
    (hmore : stepsAreProper more = true) :
    stepsAreProper (steps ++ more) = true := by
  rw [stepsAreProper_iff] at h hmore ⊢
  exact fun s hs => (List.mem_append.mp hs).elim (h s) (hmore s)

/-- An entry that a mapping can have. -/
def IsEntry (e : Value × Value) : Prop :=
  e.1.isKey = true ∧ e.1.isProper = true ∧ e.2.isProper = true

/-- Entries are if each entry is. -/
theorem haveProperKeys_iff :
    haveProperKeys es = true ↔ ∀ e ∈ es, IsEntry e := by
  induction es with
  | nil => simp [haveProperKeys]
  | cons e es ih =>
      obtain ⟨k, x⟩ := e
      simp [haveProperKeys, IsEntry, ih, and_assoc]

/-- Scalars have no parts. -/
theorem isProper_of_isScalar (h : v.isScalar = true) : v.isProper = true := by
  cases v <;> first | rfl | cases h

/-- A text in either form has no parts. -/
theorem isProper_of_text? {s : String} (h : v.text? = some s) :
    v.isProper = true := by
  cases v <;> first | rfl | cases h

/-- The items of a proper value are proper. -/
theorem yields_items (hv : v.isProper = true) :
    Yields v.items fun vs => areProper vs = true := by
  have htexts : ∀ cs : List Char,
      areProper (cs.map fun c => .text c.toString) = true := by
    intro cs
    rw [areProper_iff]
    intro u hu
    obtain ⟨c, -, rfl⟩ := List.mem_map.mp hu
    rfl
  intro vs h
  -- per kind of value that has items; the characters of a text are texts
  cases v with
  | list items | tuple items | path items =>
      rw [← Except.ok.inj h]
      simpa [isProper] using hv
  | set items =>
      simp only [isProper, Bool.and_eq_true] at hv
      rw [← Except.ok.inj h]
      exact hv.2
  | map es =>
      rw [← Except.ok.inj h, areProper_iff]
      intro u hu
      obtain ⟨e, he, rfl⟩ := List.mem_map.mp hu
      exact (haveProperKeys_iff.mp (by simpa [isProper] using hv) e he).2.1
  | text s =>
      rw [← Except.ok.inj h]
      exact htexts _
  | symbol s =>
      cases s with
      | fieldType t =>
          rw [← Except.ok.inj h]
          exact htexts _
      | _ => cases h
  | bytes octets =>
      rw [← Except.ok.inj h, areProper_iff]
      intro u hu
      obtain ⟨b, -, rfl⟩ := List.mem_map.mp hu
      rfl
  | _ => cases h

-- ================================================================ mappings

/-- Also when nothing stands under the key. -/
theorem isProper_get (h : haveProperKeys es = true) (key : Value) :
    (Entries.get key es).isProper = true := by
  unfold Entries.get
  cases hfound : Entries.lookup? key es with
  | none => rfl
  | some v =>
      obtain ⟨e, he, -, rfl⟩ := Entries.mem_of_lookup? hfound
      exact (haveProperKeys_iff.mp h e he).2.2

/-- A proper entry may be written. -/
theorem haveProperKeys_insert {key : Value} (h : haveProperKeys es = true)
    (he : IsEntry (key, v)) :
    haveProperKeys (Entries.insert key v es) = true := by
  rw [haveProperKeys_iff] at h ⊢
  intro e hmem
  rcases Entries.mem_insert hmem with hold | ⟨hvalue, hkey | ⟨-, d, hd, hkey⟩⟩
  · exact h e hold
  · obtain ⟨k, x⟩ := e
    obtain rfl : x = v := hvalue
    obtain rfl : k = key := hkey
    exact he
  · obtain ⟨hkey', hk, -⟩ := h d hd
    rw [hkey] at hkey' hk
    exact ⟨hkey', hk, hvalue ▸ he.2.2⟩

/-- An entry may be taken away. -/
theorem haveProperKeys_erase (h : haveProperKeys es = true) (key : Value) :
    haveProperKeys (Entries.erase key es) = true := by
  rw [haveProperKeys_iff] at h ⊢
  exact fun e he => h e ((Entries.erase_sublist key es).subset he)

/-- Proper entries make a proper mapping. -/
theorem haveProperKeys_ofList (h : ∀ e ∈ es, IsEntry e) :
    haveProperKeys (Entries.ofList es) = true := by
  have hgo : ∀ acc : Entries, haveProperKeys acc = true →
      haveProperKeys (es.foldl (fun acc e => Entries.insert e.1 e.2 acc) acc)
        = true := by
    induction es with
    | nil => exact fun acc hacc => hacc
    | cons e es ih =>
        intro acc hacc
        refine ih (fun d hd => h d (List.mem_cons_of_mem _ hd)) _ ?_
        exact haveProperKeys_insert hacc (h e List.mem_cons_self)
  exact hgo [] rfl

-- ================================================================ readings

/-- The entries of a proper mapping are proper. -/
theorem haveProperKeys_of_entries (hv : v.isProper = true)
    (h : v.entries = .ok es) :
    haveProperKeys es = true := by
  unfold entries at h
  split at h
  · rw [← Except.ok.inj h]
    simpa [isProper] using hv
  · cases h
  · cases h

/-- So are those of what may be none. -/
theorem haveProperKeys_of_entriesOrNone (hv : v.isProper = true)
    (h : v.entriesOrNone = .ok es) :
    haveProperKeys es = true := by
  unfold entriesOrNone at h
  split at h
  · exact haveProperKeys_of_entries hv h
  · rw [← Except.ok.inj h]
    rfl

/-- The two items of a pair are an entry if the first may be a key. -/
theorem yields_pair (hv : v.isProper = true) : Yields v.pair IsEntry := by
  refine (yields_items hv).bind fun items hitems e he => ?_
  split at he
  · next k x =>
    split at he
    · next hkey =>
      simp only [areProper, Bool.and_eq_true] at hitems
      rw [← Except.ok.inj he]
      exact ⟨hkey, hitems.1, hitems.2.1⟩
    · cases he
  · cases he

/-- So are those that are read out of pairs. -/
theorem yields_toEntries (hv : v.isProper = true) :
    Yields v.toEntries fun es => haveProperKeys es = true := by
  intro es h
  unfold toEntries at h
  split at h
  · rw [← Except.ok.inj h]
    simpa [isProper] using hv
  · obtain ⟨items, hitems, h⟩ := bind_eq_ok h
    obtain ⟨pairs, hpairs, h⟩ := bind_eq_ok h
    have hproper := areProper_iff.mp (yields_items hv items hitems)
    rw [← Except.ok.inj h]
    refine haveProperKeys_ofList fun e he => ?_
    obtain ⟨item, hitem, hpair⟩ := yields_mapM pair items pairs hpairs e he
    exact yields_pair (hproper item hitem) e hpair

end Value

end GraphMapper

/-
What holds of every model that a definition gives.

A definition is a mapping that an application makes, so that its keys, and
those of the mappings in it, can be keys (`Value.isProper`). Fields are named
by keys of a mapping, and the primary key of the model is the default or one of
these names: whatever it is, elements can be looked up under it. Columns are
values in mappings. So a model has nothing but proper values
(`Model.IsProper`), and so has every model of a registry, by whatever
definitions it has got there (`Registry.IsProper`).

Main statement: `Model.isProper_ofDefinition`.

Chain: `Value.Proper` has what proper parts a value has; used by
`Filter.Selection`, `Record.Ends`, `Connector.Reads` and `Connector.Proper`.
-/
import GraphMapper.Filter.Condition
import GraphMapper.Model.Registry
import GraphMapper.Proofs.Value.Proper

namespace GraphMapper

-- =================================================================== models

/-- The field is named by what can be a key, and its values are proper. -/
structure Field.IsProper (f : Field) : Prop where
  key : f.name.isKey = true
  name : f.name.isProper = true
  column : f.column.isProper = true

/-- The model has a primary key that can be a key, and its values are
proper. -/
structure Model.IsProper (m : Model) : Prop where
  key : m.idField.isKey = true
  idField : m.idField.isProper = true
  fields : ∀ f ∈ m.fields, f.IsProper

namespace Model

variable {m : Model}

/-- A label is a text in either form. -/
theorem isProper_label (m : Model) : m.label.isProper = true :=
  Value.isProper_of_text? m.named

/-- The column of any name is proper, as is the lack of one. -/
theorem IsProper.column (hm : m.IsProper) (name : Value) :
    (m.column name).isProper = true := by
  unfold Model.column
  cases hfound : m.field? name with
  | none => rfl
  | some f => exact (hm.fields f (List.mem_of_find?_eq_some hfound)).column

/-- So is the storage key of a proper name. -/
theorem IsProper.storageKey (hm : m.IsProper) {name : Value}
    (hname : name.isProper = true) :
    (m.storageKey name).isProper = true := by
  unfold Model.storageKey
  split
  · exact hm.column name
  · exact hname

/-- And the key that a condition on it is on. -/
theorem IsProper.conditionKey (hm : m.IsProper) {name : Value}
    (hname : name.isProper = true) :
    (m.conditionKey name).isProper = true := by
  unfold Model.conditionKey
  split
  · rfl
  · exact hm.storageKey hname

end Model

-- ============================================================== definitions

namespace Field

/-- The column of a field is a value in a mapping, if there is one. -/
private theorem yields_ofProperty {name property : Value}
    (hkey : name.isKey = true)
    (hname : name.isProper = true) (hproperty : property.isProper = true) :
    Yields (ofProperty name property) fun out => out.1.IsProper := by
  unfold ofProperty
  split
  · next es =>
    have hes : Value.haveProperKeys es = true := by
      simpa [Value.isProper] using hproperty
    intro out h
    obtain ⟨column, hcolumn, h⟩ := bind_eq_ok h
    obtain ⟨type, -, h⟩ := bind_eq_ok h
    rw [← Except.ok.inj h]
    refine ⟨hkey, hname,
      Value.isProper_get (Value.haveProperKeys_of_entriesOrNone ?_ hcolumn) _⟩
    split
    · exact Value.isProper_get hes _
    · exact Value.isProper_get hes _
  · exact yields_bind fun type => yields_pure ⟨hkey, hname, rfl⟩

/-- A mark gives the primary key the name of a field; without one it stays what
it was. -/
private theorem yields_ofProperties {es : Entries}
    (hes : Value.haveProperKeys es = true) {idField : Value}
    (hkey : idField.isKey = true) (hid : idField.isProper = true) :
    Yields (ofProperties idField es) fun out =>
      (∀ f ∈ out.1, f.IsProper) ∧ out.2.isKey = true ∧
          out.2.isProper = true := by
  induction es generalizing idField with
  | nil => exact yields_pure ⟨fun _ h => (nomatch h), hkey, hid⟩
  | cons e es ih =>
      obtain ⟨name, property⟩ := e
      simp only [Value.haveProperKeys, Bool.and_eq_true] at hes
      obtain ⟨⟨⟨hnameKey, hname⟩, hproperty⟩, hes⟩ := hes
      refine (yields_ofProperty hnameKey hname hproperty).bind
        fun field hfield => ?_
      have hrest : (if field.2 then name else idField).isKey = true ∧
          (if field.2 then name else idField).isProper = true := by
        split
        · exact ⟨hnameKey, hname⟩
        · exact ⟨hkey, hid⟩
      refine (ih hes hrest.1 hrest.2).bind fun rest hout =>
        yields_pure ⟨fun f hf => ?_, hout.2⟩
      rcases List.mem_cons.mp hf with rfl | hf
      · exact hfield
      · exact hout.1 f hf

/-- A property is read into a field of its name. -/
private theorem name_ofProperty (name property : Value) :
    Yields (ofProperty name property) fun out => out.1.name = name := by
  unfold ofProperty
  split
  · exact yields_bind fun _ => yields_bind fun _ => yields_pure rfl
  · exact yields_bind fun _ => yields_pure rfl

/-- A primary key that is not the default is a field. -/
private theorem idField_ofProperties (es : Entries) (idField : Value) :
    Yields (ofProperties idField es) fun out =>
      out.2 = idField ∨ ∃ f ∈ out.1, f.name = out.2 := by
  induction es generalizing idField with
  | nil => exact yields_pure (.inl rfl)
  | cons e es ih =>
      refine (name_ofProperty e.1 e.2).bind fun field hfield => ?_
      refine (ih (if field.2 then e.1 else idField)).bind fun rest hrest =>
        yields_pure ?_
      rcases hrest with hid | ⟨f, hf, hid⟩
      · by_cases hmarked : field.2 = true
        · rw [if_pos hmarked] at hid
          exact .inr ⟨field.1, List.mem_cons_self, hfield.trans hid.symm⟩
        · rw [if_neg hmarked] at hid
          exact .inl hid
      · exact .inr ⟨f, List.mem_cons_of_mem _ hf, hid⟩

end Field

/-- The primary key is `id`, or one of the fields. -/
theorem Model.idField_ofDefinition {definition : Value} {m : Model}
    (h : ofDefinition definition = .ok m) :
    m.idField = .text "id" ∨ ∃ f ∈ m.fields, f.name = m.idField := by
  obtain ⟨es, -, h⟩ := bind_eq_ok h
  obtain ⟨settings, -, h⟩ := bind_eq_ok h
  obtain ⟨kind, -, h⟩ := bind_eq_ok h
  obtain ⟨properties, -, h⟩ := bind_eq_ok h
  obtain ⟨out, hout, h⟩ := bind_eq_ok h
  obtain ⟨retry, -, h⟩ := bind_eq_ok h
  have hid := Field.idField_ofProperties properties (.text "id") out hout
  split at h
  · split at h
    · cases h
    · rw [← Except.ok.inj h]
      exact hid
  · cases h

/-- A definition that an application makes gives a proper model, if it gives
one. -/
theorem Model.isProper_ofDefinition {definition : Value} {m : Model}
    (hd : definition.isProper = true) (h : ofDefinition definition = .ok m) :
    m.IsProper := by
  obtain ⟨es, hes, h⟩ := bind_eq_ok h
  have hkeys := Value.haveProperKeys_of_entries hd hes
  obtain ⟨settings, -, h⟩ := bind_eq_ok h
  obtain ⟨kind, -, h⟩ := bind_eq_ok h
  obtain ⟨properties, hproperties, h⟩ := bind_eq_ok h
  obtain ⟨out, hout, h⟩ := bind_eq_ok h
  obtain ⟨retry, -, h⟩ := bind_eq_ok h
  have hnamed := Value.haveProperKeys_of_entriesOrNone
    (Value.isProper_get hkeys _) hproperties
  obtain ⟨hfields, hkey, hid⟩ :=
    Field.yields_ofProperties hnamed rfl rfl out hout
  split at h
  · split at h
    · cases h
    · rw [← Except.ok.inj h]
      exact ⟨hkey, hid, hfields⟩
  · cases h

-- =============================================================== registries

namespace Registry

variable {r r' : Registry} {definition : Value} {m : Model}

/-- All models of the registry are proper. -/
def IsProper (r : Registry) : Prop := ∀ entry ∈ r.models, entry.2.IsProper

/-- There is no model at first. -/
theorem isProper_empty : empty.IsProper := fun _ h => (nomatch h)

/-- A model that is got from a registry is proper. -/
theorem IsProper.get (hr : r.IsProper) {name : Option String}
    (h : r.get name = .ok m) :
    m.IsProper := by
  unfold Registry.get at h
  split at h
  · next m' hfound =>
    obtain ⟨s, -, hfound⟩ := Option.bind_eq_some_iff.mp hfound
    obtain ⟨before, after, hmodels, -⟩ := List.lookup_eq_some_iff.mp hfound
    rw [← Except.ok.inj h]
    exact hr (s, m') (by rw [hmodels]; simp)
  · obtain ⟨shown, -, h⟩ := bind_eq_ok h
    cases h

/-- Another proper model may be registered. -/
theorem IsProper.register (hr : r.IsProper) (hm : m.IsProper) :
    (r.register m).IsProper := by
  intro entry hentry
  rcases List.mem_cons.mp hentry with rfl | hentry
  · exact hm
  · exact hr entry (List.mem_filter.mp hentry).1

/-- So may what a definition gives. -/
theorem IsProper.registerDefinition (hr : r.IsProper)
    (hd : definition.isProper = true)
    (h : r.registerDefinition definition = .ok (r', m)) : r'.IsProper := by
  obtain ⟨m', hm', h⟩ := bind_eq_ok h
  rw [← (Prod.mk.inj (Except.ok.inj h)).1]
  exact hr.register (Model.isProper_ofDefinition hd hm')

/-- Definitions that applications make give a proper registry, if they are all
accepted. -/
theorem isProper_ofDefinitions {definitions : List Value}
    (hd : ∀ d ∈ definitions, d.isProper = true) (hr : r.IsProper)
    (h : ofDefinitions definitions r = .ok r') : r'.IsProper := by
  induction definitions generalizing r with
  | nil => exact Except.ok.inj h ▸ hr
  | cons d ds ih =>
      obtain ⟨⟨r₁, m⟩, hfirst, h⟩ := bind_eq_ok h
      have hr₁ := hr.registerDefinition (hd d List.mem_cons_self) hfirst
      exact ih (fun d' hd' => hd d' (List.mem_cons_of_mem d hd')) hr₁ h

end Registry

end GraphMapper

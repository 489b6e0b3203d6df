/-
Reading a stored record.

What a field reads from a record is what stands under its column, or else what
stands under its name (`Record.stored?`). For a model whose fields have names
of their own the record under field names is then the declared fields with what
each of them reads, in the order of declaration (`fromStorage_eq`), and what is
found in it under a field is what the field reads (`lookup?_readFields`).

# The order of the questions

A row is asked for the column first, and only if it has nothing under it for
the name of the field. What stands under the column may be null and is read all
the same: that it is there decides, and not what it is.

Chain: `Model.Keys` and `Value.Entries`; `Record.RoundTrip` compares what is
read with what was written.
-/
import GraphMapper.Proofs.Model.Keys
import GraphMapper.Proofs.Value.Entries
import GraphMapper.Record.Storage

namespace GraphMapper

namespace Record

variable {m : Model} {f : Field} {es : Entries}

/-- What a field reads from a record. -/
def stored? (es : Entries) (f : Field) : Option Value :=
  (if f.column.isGiven then Entries.lookup? f.column es else none).or
    (Entries.lookup? f.name es)

/-- Declared fields with what they read. -/
def readFields (es : Entries) (fields : List Field) : Entries :=
  fields.filterMap fun f => (stored? es f).map fun v => (f.name, v)

/-- What is in a mapping is what can be had from it. -/
private theorem contains_map {key : Value} (h : key.isKey = true)
    (es : Entries) :
    (Value.map es).contains key = .ok (Entries.lookup? key es).isSome := by
  have hfind : Entries.find key es = .ok (Entries.lookup? key es) := if_pos h
  show (Entries.find key es >>= fun found => Except.ok found.isSome) = _
  rw [hfind]
  rfl

private theorem at?_map {key v : Value} (h : key.isKey = true)
    (hv : Entries.lookup? key es = some v) :
    (Value.map es).at? key = .ok v := by
  have hfind : Entries.find key es = .ok (Entries.lookup? key es) := if_pos h
  unfold Value.at?
  simp only [hfind, hv, bind, Except.bind]

private theorem storedField_eq (h : m.Faced) (hf : f ∈ m.fields)
    (es acc : Entries) : storedField m (.map es) acc f.name
      = .ok (match stored? es f with
        | some v => Entries.insert f.name v acc
        | none => acc) := by
  obtain ⟨nameFace, hnameFace⟩ := h.facedName f hf
  have hname := Value.isKey_of_face hnameFace
  unfold storedField stored?
  rw [h.column_eq hf rfl]
  by_cases hcolumn : f.column.isGiven = true
  · have hkey : f.column.isKey = true := by
      obtain ⟨face, hface⟩ := h.facedKey f hf
      rw [Field.key, if_pos hcolumn] at hface
      exact Value.isKey_of_face hface
    simp only [hcolumn, if_true, contains_map hkey, contains_map hname,
      bind, Except.bind]
    cases hfound : Entries.lookup? f.column es with
    | some v => simp [at?_map hkey hfound]
    | none =>
        cases hown : Entries.lookup? f.name es with
        | some v => simp [at?_map hname hown]
        | none => simp
  · simp only [hcolumn, contains_map hname, bind, Except.bind]
    cases hown : Entries.lookup? f.name es with
    | some v => simp [at?_map hname hown]
    | none => simp

theorem readFields_of_none {fields : List Field} (h : stored? es f = none) :
    readFields es (f :: fields) = readFields es fields := by
  unfold readFields
  rw [List.filterMap_cons, h]
  rfl

theorem readFields_of_some {fields : List Field} {v : Value}
    (h : stored? es f = some v) :
    readFields es (f :: fields) = (f.name, v) :: readFields es fields := by
  unfold readFields
  rw [List.filterMap_cons, h]
  rfl

theorem mem_readFields {fields : List Field} {e : Value × Value} :
    e ∈ readFields es fields ↔ ∃ f ∈ fields,
      e.1 = f.name ∧ stored? es f = some e.2 := by
  unfold readFields
  rw [List.mem_filterMap]
  constructor
  · rintro ⟨f, hf, he⟩
    obtain ⟨v, hv, rfl⟩ := Option.map_eq_some_iff.mp he
    exact ⟨f, hf, rfl, hv⟩
  · rintro ⟨f, hf, hname, hv⟩
    exact ⟨f, hf, by rw [hv, ← hname]; rfl⟩

theorem distinct_readFields {fields : List Field}
    (hnames : ∀ f ∈ fields, ∃ face, f.name.face? = some face)
    (hapart : (fields.map fun f => f.name.face?).Nodup) :
    Entries.Distinct (readFields es fields) := by
  induction fields with
  | nil => exact Entries.distinct_nil
  | cons f fields ih =>
      obtain ⟨hne, hrest⟩ := List.nodup_cons.mp hapart
      have hdistinct :=
        ih (fun g hg => hnames g (List.mem_cons_of_mem _ hg)) hrest
      cases hv : stored? es f with
      | none =>
          rw [readFields_of_none hv]
          exact hdistinct
      | some v =>
          rw [readFields_of_some hv]
          refine Entries.Distinct.cons_iff.mpr
            ⟨hnames f List.mem_cons_self, fun e he hface => ?_, hdistinct⟩
          obtain ⟨g, hg, hname, -⟩ := mem_readFields.mp he
          exact hne (List.mem_map.mpr ⟨g, hg, by rw [← hname]; exact hface⟩)

/-- The record under field names is what the declared fields read. -/
theorem fromStorage_eq (h : m.Faced) (es : Entries) :
    fromStorage m (.map es) = .ok (readFields es m.fields) := by
  -- the fold over the fields, from any entries that stay distinct
  have hfold : ∀ (fields : List Field) (acc : Entries),
      (∀ f ∈ fields, f ∈ m.fields) →
      Entries.Distinct (acc ++ readFields es fields) →
      (fields.map (·.name)).foldlM (storedField m (.map es)) acc
        = .ok (acc ++ readFields es fields) := by
    intro fields
    induction fields with
    | nil =>
        intro acc _ _
        rw [readFields, List.filterMap_nil, List.append_nil]
        rfl
    | cons f fields ih =>
        intro acc hmem hdistinct
        have hrest := fun acc => ih acc fun g hg =>
          hmem g (List.mem_cons_of_mem _ hg)
        rw [List.map_cons, List.foldlM_cons,
          storedField_eq h (hmem f List.mem_cons_self)]
        cases hv : stored? es f with
        | none =>
            rw [readFields_of_none hv] at hdistinct ⊢
            exact hrest acc hdistinct
        | some v =>
            rw [readFields_of_some hv] at hdistinct ⊢
            have hnew : ∀ e ∈ acc, e.1.sameKey f.name = false := fun e he =>
              (List.pairwise_append.mp hdistinct.isMapping).2.2 e he _
                List.mem_cons_self
            have hregroup : ∀ rest : Entries,
                acc ++ [(f.name, v)] ++ rest = acc ++ (f.name, v) :: rest := by
              simp
            show (fields.map (·.name)).foldlM (storedField m (.map es))
              (Entries.insert f.name v acc) = _
            rw [Entries.insert_of_new hnew,
              hrest _ (by rw [hregroup]; exact hdistinct)]
            exact congrArg _ (hregroup _)
  exact hfold m.fields [] (fun f hf => hf)
    (distinct_readFields h.facedName h.names)

/-- What is found under a field is what the field reads. -/
theorem lookup?_readFields (h : m.Faced) (hf : f ∈ m.fields) (es : Entries) :
    Entries.lookup? f.name (readFields es m.fields) = stored? es f := by
  obtain ⟨face, hface⟩ := h.facedName f hf
  refine Option.ext fun v => ?_
  rw [(distinct_readFields h.facedName h.names).lookup?_eq_some_iff hface]
  constructor
  · rintro ⟨e, he, heq, rfl⟩
    obtain ⟨g, hg, hname, hv⟩ := mem_readFields.mp he
    rw [hname] at heq
    rwa [h.eq_of_name hg hf (heq.trans hface.symm)] at hv
  · intro hv
    exact ⟨(f.name, v), mem_readFields.mpr ⟨f, hf, rfl, hv⟩, hface, rfl⟩

end Record

end GraphMapper

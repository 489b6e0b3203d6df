/-
The traversals of an operation have nothing but proper values in them.

What gets into a traversal comes from a filter, from a record or from the
model. Names of fields and columns are the model's, operands are parts of the
filter, and what is written of a record is its id and the stored forms of its
values, which are scalars. So if the model is proper, and filter and record are
what applications can make, every step is proper (`Build.AddsProper`).

# Where values come from

The proof follows values and not operations. A filter is read into conditions,
and every part of a condition is a part of the filter, or a key of the model
(`yields_groups`, along the recursion of the parser). Conditions become steps
with these parts as arguments. A record is brought under storage keys, which
are the model's, and its values are written in stored forms, which are scalars
whatever the values were.

Chain: `Value.Proper` has what proper parts a proper value has;
`Connector.Proper` says that the calls of an application give proper arguments,
so that a graph stays one that can be (`Graph.Reachable`).
-/
import GraphMapper.Proofs.Filter.Sought
import GraphMapper.Proofs.Query.ById
import GraphMapper.Proofs.Record.Stored

namespace GraphMapper

open Value (haveProperKeys areProper stepsAreProper IsEntry)

-- ================================================================== filters

namespace Filter

open Condition

variable {p : Value → Operator → Value → Bool → Bool} {resolve : Value → Value}

mutual

/-- What is so of all conditions of a field is so of all conditions of a
filter. -/
theorem yields_groups (hfield : ∀ key v, IsEntry (key, v) →
      Yields (parseField resolve key v) fun cs => everyOf p cs = true) :
    ∀ w : Value, w.isProper = true →
      Yields (groups resolve w) fun gs => everyGrouped p gs = true
  | .null, _ => yields_pure rfl
  | .list ws, hw =>
      yields_rowGroups hfield ws (by simpa [Value.isProper] using hw)
  | .tuple ws, hw =>
      yields_rowGroups hfield ws (by simpa [Value.isProper] using hw)
  | .map es, hw => by
      have hes : haveProperKeys es = true := by simpa [Value.isProper] using hw
      refine (yields_entryConditions hfield es hes).bind fun cs hcs =>
        yields_pure ?_
      rw [everyGrouped, hcs]
      rfl
  | .bool _, _ | .int _, _ | .float _, _ | .text _, _ | .bytes _, _
  | .date _, _ | .dateTime _, _ | .set _, _ | .symbol _, _ | .datatype _, _
  | .vertex _ _, _ | .edge .., _ | .vertexProperty .., _ | .property .., _
  | .path _, _ | .traverser _, _ | .predicate .., _ | .traversal _, _
  | .foreign _ _, _ => fun _ h => nomatch h

/-- A row of filters, item by item. -/
theorem yields_rowGroups (hfield : ∀ key v, IsEntry (key, v) →
      Yields (parseField resolve key v) fun cs => everyOf p cs = true) :
    ∀ ws : List Value, areProper ws = true →
      Yields (rowGroups resolve ws) fun gs => everyGrouped p gs = true
  | [], _ => yields_pure rfl
  | w :: ws, hws => by
      simp only [areProper, Bool.and_eq_true] at hws
      refine (yields_groups hfield w hws.1).bind fun own hown => ?_
      refine (yields_rowGroups hfield ws hws.2).bind fun rest hrest =>
        yields_pure ?_
      rw [everyGrouped, everyOf_flatten, hown, hrest]
      rfl

/-- The entries of a mapping, each by the role of its key. -/
theorem yields_entryConditions (hfield : ∀ key v, IsEntry (key, v) →
      Yields (parseField resolve key v) fun cs => everyOf p cs = true) :
    ∀ es : List (Value × Value), haveProperKeys es = true →
      Yields (entryConditions resolve es) fun cs => everyOf p cs = true
  | [], _ => yields_pure rfl
  | (key, v) :: es, hes => by
      simp only [haveProperKeys, Bool.and_eq_true] at hes
      obtain ⟨⟨⟨hkey, hk⟩, hv⟩, hes⟩ := hes
      have hgo : ∀ {own : List Condition}, everyOf p own = true →
          Yields (do let rest ← entryConditions resolve es
                     .ok (own ++ rest)) fun cs => everyOf p cs = true := by
        intro own hown
        refine (yields_entryConditions hfield es hes).bind fun rest hrest =>
          yields_pure ?_
        rw [everyOf_append, hown, hrest]
        rfl
      rw [entryConditions]
      cases roleOf key with
      | join junction =>
          refine (yields_groups hfield v hv).bind fun gs hgs => hgo ?_
          rw [everyOf, every, hgs]
          rfl
      | refused shown => exact fun _ h => nomatch h
      | operator name => exact fun _ h => nomatch h
      | index =>
          refine (yields_groups hfield v hv).bind fun gs hgs => hgo ?_
          rw [everyOf_flatten, hgs]
      | field =>
          exact (hfield key v ⟨hkey, hk, hv⟩).bind fun own hown => hgo hown

end

/-- A comparison of proper values. -/
def comparesProper (field : Value) (_ : Operator) (operand : Value)
    (_ : Bool) : Bool :=
  field.isProper && operand.isProper

variable {m : Model} {key v field operand : Value} {es : Entries}

/-- An operand is the value that stands under the operator, or a row of its
items. -/
private theorem yields_operandOf (op : Operator) (hv : v.isProper = true) :
    Yields (operandOf op v) fun x => x.isProper = true := by
  intro x h
  unfold operandOf at h
  split at h
  · split at h
    · next low high hpair =>
      rw [← Except.ok.inj h]
      cases v <;> cases hpair <;> simpa [Value.isProper] using hv
    · cases h
  · split at h
    · rw [← Except.ok.inj h]
      exact hv
    · rw [← Except.ok.inj h]
      simpa [Value.isProper] using hv
    · rw [← Except.ok.inj h]
      simp only [Value.isProper, Bool.and_eq_true] at hv ⊢
      exact hv.2
    · cases h
  · split at h
    · rw [← Except.ok.inj h]
      exact hv
    · rw [← Except.ok.inj h]
      simpa [Value.isProper] using hv
    · rw [← Except.ok.inj h]
      simp only [Value.isProper, Bool.and_eq_true] at hv ⊢
      exact hv.2
    · cases h
  · exact Except.ok.inj h ▸ hv

/-- Comparisons, one for each operator. -/
private theorem yields_parseOperators (hf : field.isProper = true) :
    ∀ ops : Entries,
    haveProperKeys ops = true →
      Yields (parseOperators field ops) fun cs =>
        everyOf comparesProper cs = true
  | [], _ => yields_pure rfl
  | (key, v) :: ops, hops => by
      simp only [haveProperKeys, Bool.and_eq_true] at hops
      unfold parseOperators
      rw [List.mapM_cons]
      have hfirst : Yields (parseOperator field key v) fun c =>
          every comparesProper c = true := by
        intro c h
        unfold parseOperator at h
        split at h
        · cases h
        · split at h
          · obtain ⟨shown, -, h⟩ := bind_eq_ok h
            cases h
          · obtain ⟨shown, -, h⟩ := bind_eq_ok h
            cases h
          · obtain ⟨operand, hoperand, h⟩ := bind_eq_ok h
            rw [← Except.ok.inj h, every, comparesProper, hf,
              yields_operandOf _ hops.1.2 operand hoperand]
            rfl
      refine hfirst.bind fun c hc => ?_
      refine (yields_parseOperators hf ops hops.2).bind fun cs hcs =>
        yields_pure ?_
      rw [everyOf, hc, hcs]
      rfl

/-- A field holds operators, or a value that it is to be equal to. -/
private theorem yields_parseField (hkey : (resolve key).isProper = true)
    (hv : v.isProper = true) :
    Yields (parseField resolve key v) fun cs => everyOf comparesProper cs
      = true := by
  unfold parseField
  split
  · exact yields_parseOperators hkey _ (by simpa [Value.isProper] using hv)
  · split
    · refine yields_pure ?_
      rw [everyOf, every, comparesProper, hkey, hv]
      rfl
    · exact yields_bind fun _ _ h => nomatch h

-- ================================================================= lowering

/-- A test is made of an operand, with one bound or two. -/
private theorem yields_predicate (op : Operator)
    (hx : operand.isProper = true) :
    Yields (predicate op operand) fun test => test.isProper = true := by
  have hitems : Yields operand.items fun vs => areProper vs = true :=
    Value.yields_items hx
  have htest : ∀ c textual,
      (Value.predicate textual c operand .null).isProper = true := by
    intro c textual
    simp [Value.isProper, hx]
  cases op
  case between =>
    refine hitems.bind fun vs hvs test h => ?_
    split at h
    · rw [← Except.ok.inj h]
      simpa [Value.between, Value.isProper, areProper] using hvs
    · cases h
  case inq | nin =>
    refine hitems.bind fun vs hvs => yields_pure ?_
    simp [Value.test, Value.isProper, hvs]
  case unknown name => exact fun _ h => nomatch h
  all_goals exact yields_pure (htest _ _)

mutual

/-- One condition becomes one step, and its arguments are the parts of the
condition. -/
theorem yields_lower : ∀ c : Condition, every comparesProper c = true →
    Yields (lower c) fun steps => stepsAreProper steps = true
  | .compare field op operand true, h => by
      simp only [every, comparesProper, Bool.and_eq_true] at h
      refine yields_pure ?_
      simp [stepsAreProper, areProper, h.1, h.2]
  | .compare field op operand false, h => by
      simp only [every, comparesProper, Bool.and_eq_true] at h
      refine (yields_predicate op h.2).bind fun test htest => yields_pure ?_
      simp [stepsAreProper, areProper, h.1, htest]
  | .join junction gs, h => by
      refine (yields_lowerGroups gs h).bind fun children hchildren =>
        yields_pure ?_
      split
      · rfl
      · simp [stepsAreProper, hchildren]

/-- Conditions become steps in a row. -/
theorem yields_lowerAll :
    ∀ cs : List Condition, everyOf comparesProper cs = true →
      Yields (lowerAll cs) fun steps => stepsAreProper steps = true
  | [], _ => yields_pure rfl
  | c :: cs, h => by
      simp only [everyOf, Bool.and_eq_true] at h
      refine (yields_lower c h.1).bind fun first hfirst => ?_
      exact (yields_lowerAll cs h.2).bind fun rest hrest =>
        yields_pure (Value.stepsAreProper_append hfirst hrest)

/-- Groups of them become traversals that stand as arguments. -/
theorem yields_lowerGroups :
    ∀ gs : List (List Condition), everyGrouped comparesProper gs = true →
      Yields (lowerGroups gs) fun children => areProper children = true
  | [], _ => yields_pure rfl
  | g :: gs, h => by
      simp only [everyGrouped, Bool.and_eq_true] at h
      refine (yields_lowerAll g h.1).bind fun steps hsteps => ?_
      refine (yields_lowerGroups gs h.2).bind fun rest hrest => yields_pure ?_
      rw [areProper, Value.isProper, hrest, Bool.and_true]
      split
      · rfl
      · exact hsteps

end

/-- The steps of a selection are proper. -/
private theorem yields_select (hm : m.IsProper) {w : Value}
    (hw : w.isProper = true) :
    Yields (select m w) fun steps => stepsAreProper steps = true := by
  have hsteps : ∀ ids tests, areProper ids = true →
      stepsAreProper tests = true →
      stepsAreProper (source m ids :: labelled m.label :: tests) = true := by
    intro ids tests hids htests
    simp [source, labelled, stepsAreProper, areProper, hids, htests,
      m.isProper_label]
  intro steps h
  obtain ⟨sought, hsought, h⟩ := bind_eq_ok h
  -- by one id, or by the conditions of the filter
  cases sought with
  | some id =>
      have hid : areProper [id] = true := by
        simp [areProper,
          Value.isProper_of_isScalar (isScalar_of_sought hsought)]
      rw [← Except.ok.inj h]
      exact hsteps [id] [] hid rfl
  | none =>
      obtain ⟨conditions, hparse, h⟩ := bind_eq_ok h
      obtain ⟨tests, htests, h⟩ := bind_eq_ok h
      have hfilter : (if w.isGiven then w else .map []).isProper = true := by
        split
        · exact hw
        · rfl
      have hfield : ∀ key v, IsEntry (key, v) →
          Yields (parseField m.conditionKey key v) fun cs =>
            everyOf comparesProper cs = true :=
        fun key v he => yields_parseField (hm.conditionKey he.2.1) he.2.2
      have hconditions : everyOf comparesProper conditions = true := by
        unfold parse at hparse
        rcases hgs : groups m.conditionKey
          (if w.isGiven then w else .map []) with e | gs
        · rw [hgs] at hparse
          cases hparse
        · rw [hgs] at hparse
          rw [← Except.ok.inj hparse, everyOf_flatten]
          exact yields_groups hfield _ hfilter gs hgs
      rw [← Except.ok.inj h]
      exact hsteps [] tests rfl
        (yields_lowerAll conditions hconditions tests htests)

end Filter

-- ================================================================== records

namespace Record

variable {m : Model} {es : Entries}

/-- A stored form is a scalar. -/
private theorem yields_serialize (t : Option FieldType) (v : Value) :
    Yields (serialize t v) fun w => w.isProper = true := by
  intro w h
  cases t with
  | none => cases h
  | some t =>
      have hstored := isStored_of_serialize h
      cases t with
      | object | array | string =>
          obtain ⟨s, rfl⟩ := hstored
          rfl
      | number => rcases hstored with ⟨n, rfl⟩ | ⟨x, rfl⟩ <;> rfl
      | boolean =>
          obtain ⟨b, rfl⟩ := hstored
          rfl
      | date =>
          obtain ⟨d, rfl⟩ := hstored
          rfl

/-- An entry that is moved under a column is moved under a key of the model. -/
private theorem yields_renameKey (hm : m.IsProper)
    (hes : haveProperKeys es = true) (key : Value) :
    Yields (renameKey m es key) fun out => haveProperKeys out = true := by
  have hcolumn : Yields (newKey? m key) fun column => ∀ c ∈ column,
      c.isProper = true := by
    intro out h
    obtain ⟨column, hcolumn, h⟩ := bind_eq_ok h
    have hproper : column.isProper = true := by
      unfold Model.columnOf at hcolumn
      split at hcolumn
      · exact Except.ok.inj hcolumn ▸ hm.column key
      · cases hcolumn
    rw [← Except.ok.inj h]
    split
    · exact fun c hc => Option.some.inj hc ▸ hproper
    · exact fun c hc => nomatch hc
  refine hcolumn.bind fun column hproper out h => ?_
  cases column with
  | none => exact Except.ok.inj h ▸ hes
  | some column =>
      dsimp only at h
      split at h
      · next hkey =>
        rw [← Except.ok.inj h]
        exact Value.haveProperKeys_insert (Value.haveProperKeys_erase hes key)
          ⟨hkey, hproper column rfl, Value.isProper_get hes key⟩
      · cases h

/-- A record under storage keys is proper again. -/
private theorem yields_toStorage (hm : m.IsProper)
    (hes : haveProperKeys es = true) :
    Yields (toStorage m es) fun out => haveProperKeys out = true := by
  have hgo : ∀ (keys : List Value) (es : Entries), haveProperKeys es = true →
      Yields (keys.foldlM (renameKey m) es) fun out => haveProperKeys out
        = true := by
    intro keys
    induction keys with
    | nil => exact fun es hes => yields_pure hes
    | cons key keys ih =>
        intro es hes
        rw [List.foldlM_cons]
        exact (yields_renameKey hm hes key).bind ih
  exact hgo _ es hes

end Record

-- ================================================================= building

namespace Build

variable {α : Type}

/-- All steps that the builder appends are proper. -/
abbrev AddsProper (b : Build α) : Prop := Adds (fun s => s.isProper = true) b

/-- So the steps that such a builder makes from nothing are proper. -/
theorem AddsProper.yields {b : Build Unit} (h : AddsProper b) :
    Yields (traversalFrom [] b) fun steps => stepsAreProper steps = true := by
  intro steps hsteps
  obtain ⟨more, rfl, hmore⟩ := h.traversalFrom hsteps
  exact Value.stepsAreProper_iff.mpr hmore

end Build

namespace Query

open Build

variable {m : Model} {w id record : Value} {es : Entries}

/-- The filter of an id is made of the id and of the name of the primary
key. -/
theorem isProper_byId (hm : m.IsProper) (hid : id.isProper = true) :
    (byId m id).isProper = true := by
  simp [byId, Value.isProper, haveProperKeys, hm.key, hm.idField, hid]

/-- A selection is made of the model's label and of conditions. -/
private theorem addsProper_select (hm : m.IsProper) (hw : w.isProper = true) :
    AddsProper (select m w) :=
  .of_check fun steps hsteps =>
    adds_append (Value.stepsAreProper_iff.mp
      (Filter.yields_select hm hw steps hsteps))

/-- What is written is ids and stored forms. -/
private theorem addsProper_write (leftOut : List Value)
    (hes : haveProperKeys es = true) :
    AddsProper (Record.write m leftOut es) := by
  refine adds_forM fun e he => ?_
  obtain ⟨-, hkey, hvalue⟩ := Value.haveProperKeys_iff.mp hes e he
  unfold Record.writeEntry
  split
  · exact adds_pure ()
  · split
    · refine adds_step ?_
      simp [Step.isProper, areProper, hvalue, Value.idKey, Value.isProper]
    · refine .of_check fun stored hstored => adds_step ?_
      simp [Step.isProper, areProper, hkey,
        Record.yields_serialize _ _ stored hstored]

/-- A destruction is a selection and a step without arguments. -/
theorem addsProper_drop (hm : m.IsProper) (hw : w.isProper = true) :
    AddsProper (drop m w) :=
  (addsProper_select hm hw).bind fun _ => adds_step rfl

/-- A creation writes a record, and for an edge looks for its ends. -/
theorem addsProper_create (hm : m.IsProper)
    (hrecord : record.isProper = true) :
    AddsProper (create m record) := by
  refine .of_check fun data hdata => ?_
  have hproper : haveProperKeys data = true :=
    ((Value.yields_toEntries hrecord).bind fun _ hes =>
      Record.yields_toStorage hm hes) data hdata
  split
  · refine .of_check fun origin _ => .of_check fun target _ => ?_
    refine Adds.bind (adds_append fun s hs => ?_) fun _ =>
      addsProper_write _ hproper
    revert s
    simp [edgeBetween, Filter.labelled, child, Step.isProper, areProper,
      stepsAreProper, Value.isProper, m.isProper_label]
  · refine Adds.bind (adds_step ?_) fun _ => addsProper_write _ hproper
    simp [Step.isProper, areProper, m.isProper_label]

private theorem yields_payload (hm : m.IsProper)
    (hrecord : record.isProper = true) :
    Yields (payload m record) fun data => haveProperKeys data = true := by
  refine (Value.yields_toEntries hrecord).bind fun data hdata =>
    Record.yields_toStorage hm ?_
  split
  · exact Value.haveProperKeys_erase (Value.haveProperKeys_erase hdata _) _
  · exact hdata

private theorem isProper_clearing {keys : List Value}
    (h : areProper keys = true) : (clearing keys).isProper = true := by
  simp [clearing, child, Step.isProper, areProper, Value.isProper,
    stepsAreProper, h]

theorem addsProper_replace (hm : m.IsProper) (hid : id.isProper = true)
    (hrecord : record.isProper = true) : AddsProper (replace m id record) := by
  refine .of_check fun data hdata => ?_
  refine (addsProper_select hm (isProper_byId hm hid)).bind fun _ => ?_
  refine Adds.bind (adds_append fun s hs => ?_) fun _ =>
    addsProper_write _ (yields_payload hm hrecord data hdata)
  rw [List.mem_singleton.mp hs]
  exact isProper_clearing rfl

private theorem yields_writes (columns : Entries)
    (hes : haveProperKeys es = true) : Yields (writes m columns es) fun out =>
      ∀ e ∈ out, e.1.isProper = true ∧ e.2.isProper = true := by
  intro out h e he
  obtain ⟨old, hold, h⟩ := yields_mapM _ es out h e he
  obtain ⟨stored, hstored, h⟩ := bind_eq_ok h
  rw [← Except.ok.inj h]
  exact ⟨(Value.haveProperKeys_iff.mp hes old hold).2.1,
    Record.yields_serialize _ _ stored hstored⟩

theorem addsProper_update (hm : m.IsProper) (hw : w.isProper = true)
    (hrecord : record.isProper = true) : AddsProper (update m w record) := by
  refine .of_check fun data hdata => .of_check fun columns _ =>
    .of_check fun entries hentries => ?_
  have hproper := yields_writes columns
    (Value.haveProperKeys_erase (yields_payload hm hrecord data hdata)
      m.idField) entries hentries
  refine (addsProper_select hm hw).bind fun _ => ?_
  refine Adds.bind (adds_append fun s hs => ?_) fun _ => adds_step rfl
  obtain ⟨e, he, hs⟩ := List.mem_flatMap.mp hs
  obtain ⟨hkey, hvalue⟩ := hproper e he
  rcases List.mem_cons.mp hs with rfl | hs
  · exact isProper_clearing (by simp [areProper, hkey])
  · rw [List.mem_singleton.mp hs]
    simp [Step.isProper, areProper, hkey, hvalue]

end Query

end GraphMapper

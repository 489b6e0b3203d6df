/-
Filters that cannot be read.

A filter that the parser rejects is reported as invalid, or as one with an
operator that has no traversal. There is a third outcome: the report of an
unknown field or operator shows its name, and a name without a plain form
cannot be shown (`failsOnly_parse`). Then what comes out is how the text of
that name fails, by a type or by a value.

# What becomes of a selection

A selection reads a filter only if it is given. What is given and cannot be
read fails the selection before its first step (`select_malformed`). What is
not given is taken for no filter at all, also where the parser would reject it,
such as an empty text or a zero (`select_of_not_given`).

Chain: `Value.Printing` for the keys that have a text; `Filter.Grammar` says
which filters are accepted, and `Connector.Malformed` what the operations make
of the others.
-/
import GraphMapper.Proofs.Value.Printing
import GraphMapper.Query.Builder

namespace GraphMapper

/-- The failure says that an argument is invalid, or that an operator has no
traversal. -/
def Failure.isUnreadable : Failure → Bool
  | .fault f => f.kind == .validation || f.kind == .unsupportedOperator
  | _ => false

namespace Filter

-- ================================================ statement vocabulary

mutual

/-- Every key of a mapping in the filter, however deep, has a plain form. -/
def keysShow : Value → Bool
  | .list items => rowShows items
  | .tuple items => rowShows items
  | .map entries => entriesShow entries
  | _ => true
termination_by structural v => v

/-- Whether all keys in a row of filters have a text. -/
def rowShows : List Value → Bool
  | [] => true
  | v :: vs => keysShow v && rowShows vs
termination_by structural vs => vs

/-- Whether all keys of the entries of a filter have one, those in their values
among them. -/
def entriesShow : List (Value × Value) → Bool
  | [] => true
  | (key, v) :: es => key.plain.isOk && (keysShow v && entriesShow es)
termination_by structural es => es

end

/-- What a filter may be rejected with: a report, unless some key cannot be
shown. -/
def Reports (shows : Bool) (e : Failure) : Prop :=
  e.isUnreadable = true ∨ shows = false ∧ e.IsTextless

variable {β : Type} {resolve : Value → Value} {m : Model} {w : Value}
  {e : Failure}

/-- A row shows its keys if the first filter does and the others do. -/
private theorem rowShows_cons {v : Value} {vs : List Value} :
    rowShows (v :: vs) = true ↔ keysShow v = true ∧ rowShows vs = true := by
  rw [rowShows, Bool.and_eq_true]

/-- Entries do if the first key has a text, and its value and the other entries
show theirs. -/
private theorem entriesShow_cons {key v : Value} {es : List (Value × Value)} :
    entriesShow ((key, v) :: es) = true
      ↔ key.plain.isOk = true ∧ keysShow v = true ∧ entriesShow es = true := by
  rw [entriesShow, Bool.and_eq_true, Bool.and_eq_true]

/-- The more keys have a text, the fewer ways there are to fail. -/
theorem Reports.mono {shows less : Bool} (hless : less = true → shows = true)
    {r : Checked β} (h : FailsOnly (Reports shows) r) :
    FailsOnly (Reports less) r := by
  intro e he
  rcases h e he with hreport | ⟨hshows, hslip⟩
  · exact .inl hreport
  · refine .inr ⟨?_, hslip⟩
    rw [Bool.eq_false_iff] at hshows ⊢
    exact fun h => hshows (hless h)

/-- A filter that is said to be unreadable is reported. -/
private theorem reports_error {shows : Bool} (he : e.isUnreadable = true) :
    FailsOnly (Reports shows) (.error e : Checked β) :=
      failsOnly_error (.inl he)

-- ================================================================== entries

/-- To take the text of a key fails only if it has none. -/
theorem failsOnly_plain (key : Value) :
    FailsOnly (Reports key.plain.isOk) key.plain := by
  intro e he
  exact .inr ⟨by rw [he]; rfl, key.failsOnly_plain e he⟩

/-- A report that shows the name of a field or an operator. -/
private theorem failsOnly_shown (key : Value) {report : String → Failure}
    (h : ∀ s, (report s).isUnreadable = true) :
    FailsOnly (Reports key.plain.isOk)
      (do .error (report (← key.plain)) : Checked β) :=
  (failsOnly_plain key).bind fun s => reports_error (h s)

/-- An operand is taken, or the filter is unreadable. -/
private theorem failsOnly_operandOf {shows : Bool} (op : Operator)
    (v : Value) : FailsOnly (Reports shows) (operandOf op v) := by
  unfold operandOf
  split
  · split
    · exact failsOnly_ok _
    · exact reports_error rfl
  · split
    · exact failsOnly_ok _
    · exact failsOnly_ok _
    · exact failsOnly_ok _
    · exact reports_error rfl
  · split
    · exact failsOnly_ok _
    · exact failsOnly_ok _
    · exact failsOnly_ok _
    · exact reports_error rfl
  · exact failsOnly_ok _

/-- An operator shows its own name when it is not known. -/
private theorem failsOnly_parseOperator (field key v : Value) :
    FailsOnly (Reports key.plain.isOk) (parseOperator field key v) := by
  unfold parseOperator
  split
  · exact reports_error rfl
  · split
    · exact failsOnly_shown key fun _ => rfl
    · exact failsOnly_shown key fun _ => rfl
    · exact (failsOnly_operandOf _ _).bind fun _ => failsOnly_ok _

/-- Operators of one field show theirs. -/
private theorem failsOnly_parseOperators (field : Value) (es : Entries) :
    FailsOnly (Reports (entriesShow es)) (parseOperators field es) := by
  unfold parseOperators
  induction es with
  | nil => exact failsOnly_ok _
  | cons entry es ih =>
      obtain ⟨key, v⟩ := entry
      have hkey : FailsOnly (Reports (entriesShow ((key, v) :: es)))
          (parseOperator field key v) := by
        apply Reports.mono _ (failsOnly_parseOperator field key v)
        intro hshow
        exact (entriesShow_cons.mp hshow).1
      have hrest : FailsOnly (Reports (entriesShow ((key, v) :: es)))
          (es.mapM fun e => parseOperator field e.1 e.2) := by
        apply Reports.mono _ ih
        intro hshow
        exact (entriesShow_cons.mp hshow).2.2
      rw [List.mapM_cons]
      exact hkey.bind fun _ => hrest.bind fun _ => failsOnly_ok _

/-- An entry shows the name of its field besides. -/
private theorem failsOnly_parseField (resolve : Value → Value)
    (key v : Value) : FailsOnly (Reports (key.plain.isOk && keysShow v))
      (parseField resolve key v) := by
  unfold parseField
  split
  · next ops =>
    apply Reports.mono _ (failsOnly_parseOperators (resolve key) ops)
    intro hshow
    rw [Bool.and_eq_true] at hshow
    exact hshow.2
  · split
    · exact failsOnly_ok _
    · apply Reports.mono _ (failsOnly_shown key fun _ => rfl)
      intro hshow
      rw [Bool.and_eq_true] at hshow
      exact hshow.1

-- ================================================================== filters

mutual

/-- A filter fails as its parts do. -/
theorem failsOnly_groups :
    ∀ v, FailsOnly (Reports (keysShow v)) (groups resolve v)
  | .list items => failsOnly_rowGroups items
  | .tuple items => failsOnly_rowGroups items
  | .map entries =>
      (failsOnly_entryConditions entries).bind fun _ => failsOnly_ok _
  | .null => failsOnly_ok _
  | .bool _ | .int _ | .float _ | .text _ | .bytes _ | .date _ | .dateTime _
  | .set _ | .symbol _ | .datatype _ | .vertex _ _ | .edge _ _ _ _ _ _
  | .vertexProperty _ _ _ | .property _ _ | .path _ | .traverser _
  | .predicate _ _ _ _ | .traversal _ | .foreign _ _ => reports_error rfl
termination_by structural v => v

/-- Filters in a row are read one by one, and each shows its own keys. -/
theorem failsOnly_rowGroups :
    ∀ vs, FailsOnly (Reports (rowShows vs)) (rowGroups resolve vs)
  | [] => failsOnly_ok _
  | v :: vs => by
      have hfirst : FailsOnly (Reports (rowShows (v :: vs)))
          (groups resolve v) := by
        apply Reports.mono _ (failsOnly_groups v)
        intro hshow
        exact (rowShows_cons.mp hshow).1
      have hrest : FailsOnly (Reports (rowShows (v :: vs)))
          (rowGroups resolve vs) := by
        apply Reports.mono _ (failsOnly_rowGroups vs)
        intro hshow
        exact (rowShows_cons.mp hshow).2
      exact hfirst.bind fun _ => hrest.bind fun _ => failsOnly_ok _
termination_by structural vs => vs

/-- So are the entries of a filter. -/
theorem failsOnly_entryConditions : ∀ es,
    FailsOnly (Reports (entriesShow es)) (entryConditions resolve es)
  | [] => failsOnly_ok _
  | (key, v) :: es => by
      have hgroups : FailsOnly (Reports (entriesShow ((key, v) :: es)))
          (groups resolve v) := by
        apply Reports.mono _ (failsOnly_groups v)
        intro hshow
        exact (entriesShow_cons.mp hshow).2.1
      have hfield : FailsOnly (Reports (entriesShow ((key, v) :: es)))
          (parseField resolve key v) := by
        apply Reports.mono _ (failsOnly_parseField resolve key v)
        intro hshow
        obtain ⟨hkey, hv, -⟩ := entriesShow_cons.mp hshow
        rw [hkey, hv, Bool.and_self]
      have hbehind : ∀ own : List Condition,
          FailsOnly (Reports (entriesShow ((key, v) :: es)))
            (do .ok (own ++ (← entryConditions resolve es))) := by
        intro own
        refine FailsOnly.bind ?_ fun _ => failsOnly_ok _
        apply Reports.mono _ (failsOnly_entryConditions es)
        intro hshow
        exact (entriesShow_cons.mp hshow).2.2
      -- the role of the key decides what is read
      rw [entryConditions]
      split
      · exact hgroups.bind fun _ => hbehind _
      · exact reports_error rfl
      · exact reports_error rfl
      · exact hgroups.bind fun _ => hbehind _
      · exact hfield.bind hbehind
termination_by structural es => es

end

/-- A rejected filter is reported as invalid or as one with an operator without
a traversal, unless one of its keys cannot be shown. -/
theorem failsOnly_parse (resolve : Value → Value) (w : Value) :
    FailsOnly (Reports (keysShow w)) (parse resolve w) :=
      (failsOnly_groups w).map _

-- =============================================================== selection

/-- Whether an id is sought can always be told. -/
theorem soughtId_none (hid : m.idField.isKey = true)
    (hsought : ∀ id, soughtId? m.idField w ≠ .ok (some id)) :
    soughtId? m.idField w = .ok none := by
  cases hgo : soughtId? m.idField w with
  | error e =>
      unfold soughtId? Entries.find at hgo
      rw [hid] at hgo
      split at hgo <;> cases hgo
  | ok sought =>
      cases sought with
      | none => rfl
      | some id => exact absurd hgo (hsought id)

/-- What is given and cannot be read fails the selection. -/
theorem select_malformed (hgiven : w.isGiven = true)
    (hsought : soughtId? m.idField w = .ok none)
    (hparse : parse m.conditionKey w = .error e) : select m w = .error e := by
  unfold select
  simp only [hsought, hgiven, if_true, hparse, bind, Except.bind]

/-- What is not given selects every element of the model, whatever the parser
would say of it. -/
theorem select_of_not_given (hw : w.isGiven = false) :
    select m w = .ok [source m [], labelled m.label] := by
  have hsought : soughtId? m.idField w = .ok none := by
    cases w with
    | map es =>
        cases es with
        | nil => rfl
        | cons entry es => cases hw
    | _ => rfl
  unfold select
  simp only [hsought, hw, Bool.false_eq_true, if_false]
  rfl

/-- A filter that the parser rejects fails the selection just when it is
given. -/
theorem select_eq_error_iff (hsought : soughtId? m.idField w = .ok none)
    (hparse : parse m.conditionKey w = .error e) :
    select m w = .error e ↔ w.isGiven = true := by
  constructor
  · intro hselect
    cases hw : w.isGiven with
    | true => rfl
    | false =>
        rw [select_of_not_given hw] at hselect
        cases hselect
  · intro hgiven
    exact select_malformed hgiven hsought hparse

end Filter

end GraphMapper

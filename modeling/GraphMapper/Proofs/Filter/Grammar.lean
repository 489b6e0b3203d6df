/-
The grammar of filters.

What a filter is and what it is read into is said by rules, one for each form
of a filter and of an entry (`Reads`). A key that joins filters, an index, the
name of an operator and the name of a field can be told apart without regard to
the order in which the parser asks for them (`roleOf_eq_join_iff`,
`roleOf_eq_index_iff`, `roleOf_eq_field_iff`), so the parser gives a result
just where the rules do, and the same one (`groups_eq_ok_iff`).

What is no filter holds at least one entry that no rule reads. These are the
`offences`, listed from left to right and from the outside in; the parser stops
at the first of them (`Heads`). It reports an operator without a traversal as
such and all else as invalid. There is one exception: the report may show a key
that has no text, and then it fails as that text does (`Offence.report_eq`).

# Why there are rules besides the parser

The parser asks what a key is in one order and reads on as soon as it knows.
That order is not part of what a filter means, and a reader who wants to know
whether a filter is accepted would have to follow it. The rules name each form
by itself. That both agree is shown along the recursion of the parser, over
values, rows and entries at once, and the only place where the order of its
questions matters is `roleOf`.

For the failures the parser is followed once more (`heads_groups`). `Heads`
says that a computation fails with the first of a list of offences or, if there
is none, does not fail; lists are put together as computations are, so each
case of the recursion is the concatenation of what it reads.

Main statement: `parse_exact`.

Chain: `Value.Printing` says which keys have no text; `Selection` gives the
conditions their meaning.
-/
import GraphMapper.Filter.Parser
import GraphMapper.Proofs.Value.Printing

namespace GraphMapper.Filter

-- ================================================================== the rules

/-- The key joins filters. -/
inductive Joins (key : Value) : Junction → Prop
  | all (h : key.text? = some "and") : Joins key .all
  | any (h : key.text? = some "or") : Joins key .any

/-- The key is an operator that has no traversal. -/
def IsRefused (key : Value) : Prop :=
  key.text? = some "near" ∨ key.text? = some "regexp"

/-- The key is one of the thirteen operators. -/
def Names (key : Value) (op : Operator) : Prop :=
  ∃ s, key.text? = some s ∧ (op, s) ∈ Operator.known

/-- The key is the name of a field: it is nothing else. -/
structure IsField (key : Value) : Prop where
  noJunction : ∀ junction, ¬Joins key junction
  notRefused : ¬IsRefused key
  noOperator : ∀ op, ¬Names key op
  noIndex : isIndex key = false

/-- What an operator may stand with, and what a condition holds for it. -/
inductive Operand : Operator → Value → Value → Prop
  | range {v low high : Value} (hv : v.sequence? = some [low, high]) :
      Operand .between v (.tuple [low, high])
  | choice {op : Operator} {v : Value} {xs : List Value}
      (hop : op = .inq ∨ op = .nin)
      (hv : v = .list xs ∨ v = .tuple xs ∨ v = .set xs) :
      Operand op v (.list xs)
  | other {op : Operator} {v : Value}
      (hop : op ≠ .between ∧ op ≠ .inq ∧ op ≠ .nin) (hv : v ≠ .null) :
      Operand op v v

/-- Operators of a field, in their order. -/
inductive OperatorsRead (field : Value) : Entries → List Condition → Prop
  | nil : OperatorsRead field [] []
  | cons {key v operand : Value} {op : Operator} {es : Entries}
      {cs : List Condition}
      (hkey : Names key op) (hv : Operand op v operand)
      (hes : OperatorsRead field es cs) :
      OperatorsRead field ((key, v) :: es)
        (.compare field op operand false :: cs)

section rules

variable (resolve : Value → Value)

mutual

/-- A filter is read into conditions. -/
inductive Reads : Value → List Condition → Prop
  | none : Reads .null []
  | row {v : Value} {items : List Value} {gs : List (List Condition)}
      (hv : v.sequence? = some items) (hitems : RowReads items gs) :
      Reads v gs.flatten
  | mapping {es : Entries} {cs : List Condition} (hes : EntriesRead es cs) :
      Reads (.map es) cs

/-- Each filter of a row is read into a group of conditions. -/
inductive RowReads : List Value → List (List Condition) → Prop
  | nil : RowReads [] []
  | cons {v : Value} {vs : List Value} {cs : List Condition}
      {gs : List (List Condition)}
      (hv : Reads v cs) (hvs : RowReads vs gs) : RowReads (v :: vs) (cs :: gs)

/-- An entry of a filter is read into conditions. -/
inductive EntryReads : Value → Value → List Condition → Prop
  | joinRow {key v : Value} {junction : Junction} {items : List Value}
      {gs : List (List Condition)} (hkey : Joins key junction)
      (hv : v.sequence? = some items) (hitems : RowReads items gs) :
      EntryReads key v [.join junction gs]
  | joinOne {key v : Value} {junction : Junction} {cs : List Condition}
      (hkey : Joins key junction) (hrow : v.sequence? = Option.none)
        (hv : Reads v cs) :
      EntryReads key v [.join junction [cs]]
  | index {key v : Value} {cs : List Condition} (hkey : isIndex key = true)
      (hv : Reads v cs) :
      EntryReads key v cs
  | scalar {key v : Value} (hkey : IsField key) (hv : v.isScalar = true) :
      EntryReads key v [.compare (resolve key) .eq v true]
  | operators {key : Value} {ops : Entries} {cs : List Condition}
      (hkey : IsField key) (hops : OperatorsRead (resolve key) ops cs) :
      EntryReads key (.map ops) cs

/-- The entries of a filter are read one after the other. -/
inductive EntriesRead : Entries → List Condition → Prop
  | nil : EntriesRead [] []
  | cons {key v : Value} {es : Entries} {own rest : List Condition}
      (hfirst : EntryReads key v own)
      (hrest : EntriesRead es rest) :
      EntriesRead ((key, v) :: es) (own ++ rest)

end

end rules

-- =============================================================== the offences

/-- What no rule reads. -/
inductive Offence where
  /-- What stands in the place of a filter, and is none. -/
  | noFilter (v : Value)
  /-- An operator without a traversal, by the name that it is refused by. -/
  | refused (shown : String)
  /-- An operator under no field. -/
  | bare (name : String)
  /-- A field with what is neither a scalar nor a mapping of operators. -/
  | unsupported (key v : Value)
  /-- What stands in the place of an operator, and is none. -/
  | unknown (key : Value)
  /-- An operator with nothing. -/
  | missing (key : Value)
  /-- A range that is no pair, or a choice from what is no list. -/
  | operand (op : Operator)

namespace Offence

/-- The key that is shown in the report. -/
def shown? : Offence → Option Value
  | .unsupported key _ | .unknown key | .missing key => some key
  | _ => none

/-- What is to be shown has a text. -/
def isShowable (o : Offence) : Bool := o.shown?.all fun key => key.plain.isOk

/-- An operator without a traversal is unsupported; whatever else is wrong is
invalid. -/
def kind : Offence → FaultKind
  | .refused _ => .unsupportedOperator
  | _ => .validation

/-- A report with a key in it. -/
def showing (key : Value) (report : String → Failure) : Failure :=
  match key.plain with
  | .ok s => report s
  | .error e => e

/-- What is reported of an offence, in the words of the library. -/
def report : Offence → Failure
  | .noFilter v =>
      .validation "where clause must be a mapping"
        [(.text "type", .text v.kind)]
  | .refused shown => refusal shown
  | .bare name =>
      .validation ("operator '" ++ name ++ "' must be nested under a field") []
  | .unsupported key v => showing key fun s =>
      .validation ("unsupported value for field '" ++ s ++ "'")
        [(.text "type", .text v.kind)]
  | .unknown key =>
      showing key fun s => .validation ("unknown operator '" ++ s ++ "'") []
  | .missing key => showing key fun s =>
      .validation ("operator '" ++ s ++ "' requires a value") []
  | .operand .between => .validation "between requires a [low, high] pair" []
  | .operand op => .validation (op.name ++ " requires a list of values") []

/-- The report is of its kind, unless it cannot show the key. Then it is how
the text of the key fails: by a type or by a value. -/
theorem report_eq (o : Offence) :
    if o.isShowable then
      ∃ message details, o.report = .ofKind o.kind message details
    else
      ∃ key, o.shown? = some key ∧ key.plain = .error o.report ∧
        o.report.IsTextless := by
  have hshowing {key : Value} {message : String → String} {details : Entries}
      (hshown : o.shown? = some key) (hkind : o.kind = .validation)
      (hreport : o.report
        = showing key fun s => .validation (message s) details) :
      if o.isShowable then
        ∃ message details, o.report = .ofKind o.kind message details
      else
        ∃ key, o.shown? = some key ∧ key.plain = .error o.report ∧
          o.report.IsTextless := by
    unfold isShowable
    rw [hreport, hshown, hkind, Option.all_some]
    unfold showing
    cases htext : key.plain with
    | ok s => exact ⟨_, _, rfl⟩
    | error e => exact ⟨key, rfl, htext, key.failsOnly_plain e htext⟩
  cases o with
  | unsupported key v => exact hshowing rfl rfl rfl
  | unknown key => exact hshowing rfl rfl rfl
  | missing key => exact hshowing rfl rfl rfl
  | operand op => cases op <;> exact ⟨_, _, rfl⟩
  | noFilter v => exact ⟨_, _, rfl⟩
  | refused shown => exact ⟨_, _, rfl⟩
  | bare name => exact ⟨_, _, rfl⟩

end Offence

/-- The operator can stand with the value, if that is anything at all. -/
def takes (op : Operator) (v : Value) : Bool :=
  match op with
  | .between => v.sequence?.map List.length == some 2
  | .inq | .nin =>
    match v with
    | .list _ | .tuple _ | .set _ => true
    | _ => false
  | _ => true

/-- What is wrong with an entry of a mapping of operators. -/
def operatorOffences (key v : Value) : List Offence :=
  match key.text?.bind fun s => List.lookup s refused with
  | some shown => [.refused shown]
  | none =>
    match key.text?.bind Operator.ofName?, v with
    | none, _ => [.unknown key]
    | some _, .null => [.missing key]
    | some op, v => if takes op v then [] else [.operand op]

/-- What is wrong with a field. -/
def fieldOffences (key v : Value) : List Offence :=
  match v with
  | .map ops => ops.flatMap fun e => operatorOffences e.1 e.2
  | v => if v.isScalar then [] else [.unsupported key v]

mutual

/-- What is wrong with a filter, from left to right and from the outside in. -/
def offences : Value → List Offence
  | .null => []
  | .list items => rowOffences items
  | .tuple items => rowOffences items
  | .map entries => entriesOffences entries
  | v => [.noFilter v]
termination_by structural v => v

/-- The offences of a row of filters, from left to right. -/
def rowOffences : List Value → List Offence
  | [] => []
  | v :: vs => offences v ++ rowOffences vs
termination_by structural vs => vs

/-- The offences of the entries of a mapping, from left to right. -/
def entriesOffences : List (Value × Value) → List Offence
  | [] => []
  | (key, v) :: es =>
    (match roleOf key with
      | .join _ => offences v
      | .refused shown => [.refused shown]
      | .operator name => [.bare name]
      | .index => offences v
      | .field => fieldOffences key v) ++ entriesOffences es
termination_by structural es => es

end

variable {resolve : Value → Value}

-- =================================================================== the keys

/-- The operators have names of their own, so each is found by its name
alone. -/
private theorem ofName?_eq_some_iff {s : String} {op : Operator} :
    Operator.ofName? s = some op ↔ (op, s) ∈ Operator.known := by
  constructor
  · intro h
    obtain ⟨entry, hfound, rfl⟩ := Option.map_eq_some_iff.mp h
    have hname := List.find?_some hfound
    rw [← decide_eq_true_iff.mp hname]
    exact List.mem_of_find?_eq_some hfound
  · intro h
    have hall : ∀ entry ∈ Operator.known,
      Operator.ofName? entry.2 = some entry.1 := by decide
    exact hall _ h

/-- A key is the name of an operator in one way only. -/
private theorem Names.eq_some {key : Value} {op : Operator}
    (h : Names key op) : key.text?.bind Operator.ofName? = some op := by
  obtain ⟨s, hs, hop⟩ := h
  rw [hs]
  exact ofName?_eq_some_iff.mpr hop

/-- What is read as an operator is its name. -/
private theorem names_of_eq_some {key : Value} {op : Operator}
    (h : key.text?.bind Operator.ofName? = some op) : Names key op := by
  obtain ⟨s, hs, hop⟩ := Option.bind_eq_some_iff.mp h
  exact ⟨s, hs, ofName?_eq_some_iff.mp hop⟩

/-- The two operators without a traversal are known by their names. -/
private theorem lookup_refused_of {s : String}
    (h : s = "near" ∨ s = "regexp") :
    (List.lookup s refused).isSome = true := by
  rcases h with rfl | rfl <;> rfl

/-- And there are no more of them. -/
private theorem of_lookup_refused {s shown : String}
    (h : List.lookup s refused = some shown) :
    s = "near" ∨ s = "regexp" := by
  by_cases hnear : s = "near"
  · exact .inl hnear
  · by_cases hregexp : s = "regexp"
    · exact .inr hregexp
    · have hnone : List.lookup s refused = none := by
        rw [refused, List.lookup_cons, List.lookup_cons, beq_false_of_ne hnear,
          beq_false_of_ne hregexp]
        rfl
      rw [hnone] at h
      cases h

/-- An index is a number, or a text that is no word of the grammar. -/
private theorem not_allDigits_of_word {s : String}
    (h : s ∈ ["and", "or", "near", "regexp"] ++ Operator.known.map (·.2)) :
    Text.allDigits s = false := by
  have hall : ∀ s
      ∈ ["and", "or", "near", "regexp"] ++ Operator.known.map (·.2),
      Text.allDigits s = false := by decide
  exact hall s h

/-- No word of the language is made of digits. -/
private theorem not_isIndex_of_word {key : Value} {s : String}
    (hs : key.text? = some s)
    (h : s ∈ ["and", "or", "near", "regexp"] ++ Operator.known.map (·.2)) :
    isIndex key = false := by
  have hdigits := not_allDigits_of_word h
  unfold isIndex
  split
  · cases hs
  · rw [hs]
    exact hdigits

/-- The role of a key, without regard to the order of the questions. -/
private theorem roleOf_spec (key : Value) :
    match roleOf key with
    | .join junction => Joins key junction
    | .refused _ => IsRefused key
    | .operator _ => ∃ op, Names key op
    | .index => isIndex key = true
    | .field => IsField key := by
  unfold roleOf
  -- a key that is no text can only be an index or a field
  cases htext : key.text? with
  | none =>
      have hno : ∀ s, key.text? ≠ some s := fun s hs => by
        rw [htext] at hs; cases hs
      by_cases hindex : isIndex key = true
      · simp only [hindex, if_true]
      · rw [Bool.not_eq_true] at hindex
        simp only [hindex, Bool.false_eq_true, if_false]
        refine ⟨fun junction h => ?_, fun h => h.elim (hno _) (hno _),
          fun op h => ?_, hindex⟩
        · cases h with
          | all h => exact hno _ h
          | any h => exact hno _ h
        · obtain ⟨s, hs, -⟩ := h
          exact hno s hs
  | some s =>
      dsimp only
      -- the words are tried in this order: junctions, refused, operators
      by_cases hand : s = "and"
      · rw [if_pos hand]
        exact .all (htext.trans (congrArg some hand))
      by_cases hor : s = "or"
      · rw [if_neg hand, if_pos hor]
        exact .any (htext.trans (congrArg some hor))
      rw [if_neg hand, if_neg hor]
      cases hrefused : List.lookup s refused with
      | some shown =>
          exact (of_lookup_refused hrefused).imp
            (fun h => htext.trans (congrArg some h)) fun h =>
              htext.trans (congrArg some h)
      | none =>
          dsimp only
          cases hop : Operator.ofName? s with
          | some op => exact ⟨op, s, htext, ofName?_eq_some_iff.mp hop⟩
          | none =>
              by_cases hindex : isIndex key = true
              · simp only [hindex, if_true, Option.isSome_none,
                  Bool.false_eq_true, if_false]
              · rw [Bool.not_eq_true] at hindex
                simp only [hindex, Option.isSome_none,
                  Bool.false_eq_true, if_false]
                refine ⟨fun junction h => ?_, fun h => ?_,
                  fun op h => ?_, hindex⟩
                · cases h with
                  | all h => exact hand (Option.some.inj (htext.symm.trans h))
                  | any h => exact hor (Option.some.inj (htext.symm.trans h))
                · have hsome := lookup_refused_of (s := s) (h.imp
                    (fun h => Option.some.inj (htext.symm.trans h))
                    fun h => Option.some.inj (htext.symm.trans h))
                  rw [hrefused] at hsome
                  cases hsome
                · have hsome := h.eq_some
                  rw [htext] at hsome
                  exact absurd (hop.symm.trans hsome) (by simp)

/-- The first question of the parser, without the ones before it. -/
theorem roleOf_eq_join_iff {key : Value} {junction : Junction} :
    roleOf key = .join junction ↔ Joins key junction := by
  constructor
  · intro h
    have hspec := roleOf_spec key
    rwa [h] at hspec
  · intro h
    unfold roleOf
    cases h with
    | all h => rw [h]; rfl
    | any h => rw [h]; rfl

/-- A field is what none of the other questions is answered with yes for. -/
theorem roleOf_eq_field_iff {key : Value} :
    roleOf key = .field ↔ IsField key := by
  have hspec := roleOf_spec key
  constructor
  · intro h
    rwa [h] at hspec
  · intro h
    cases hrole : roleOf key with
    | field => rfl
    | join junction =>
        rw [hrole] at hspec
        exact absurd hspec (h.noJunction junction)
    | refused shown =>
        rw [hrole] at hspec
        exact absurd hspec h.notRefused
    | operator name =>
        rw [hrole] at hspec
        obtain ⟨op, hop⟩ := hspec
        exact absurd hop (h.noOperator op)
    | index =>
        rw [hrole] at hspec
        exact absurd (hspec.symm.trans h.noIndex) (by decide)

/-- An index is no word, so it does not matter that it is asked for late. -/
theorem roleOf_eq_index_iff {key : Value} :
    roleOf key = .index ↔ isIndex key = true := by
  have hspec := roleOf_spec key
  constructor
  · intro h
    rwa [h] at hspec
  · intro h
    have hno : ∀ {s : String}, key.text? = some s →
        s ∉ ["and", "or", "near", "regexp"] ++ Operator.known.map (·.2) := by
      intro s hs hword
      rw [not_isIndex_of_word hs hword] at h
      cases h
    cases hrole : roleOf key with
    | index => rfl
    | join junction =>
        rw [hrole] at hspec
        cases hspec with
        | all hs => exact absurd (by decide) (hno hs)
        | any hs => exact absurd (by decide) (hno hs)
    | refused shown =>
        rw [hrole] at hspec
        rcases hspec with hs | hs <;> exact absurd (by decide) (hno hs)
    | operator name =>
        rw [hrole] at hspec
        obtain ⟨op, s, hs, hop⟩ := hspec
        exact absurd (List.mem_append_right _ (List.mem_map_of_mem hop))
          (hno hs)
    | field =>
        rw [hrole] at hspec
        exact absurd (hspec.noIndex.symm.trans h) (by decide)

-- ============================================================== the operators

/-- An operator that can be used is not one of the two that cannot. -/
private theorem Names.not_refused {key : Value} {op : Operator}
    (h : Names key op) :
    (key.text?.bind fun s => List.lookup s refused) = none := by
  have hall : ∀ entry ∈ Operator.known, List.lookup entry.2 refused
      = none := by decide
  obtain ⟨s, hs, hop⟩ := h
  rw [hs]
  exact hall _ hop

/-- A choice needs a row, a range needs two bounds, and the others take what
there is. -/
private theorem operandOf_eq_ok_iff {op : Operator} {v w : Value}
    (hv : v ≠ .null) : operandOf op v = .ok w ↔ Operand op v w := by
  constructor
  -- the three operators that look at the shape, each with its shapes
  · intro h
    unfold operandOf at h
    split at h
    · split at h
      · next hrow =>
        rw [← Except.ok.inj h]
        exact .range hrow
      · cases h
    · split at h
      · rw [← Except.ok.inj h]
        exact .choice (.inl rfl) (.inl rfl)
      · rw [← Except.ok.inj h]
        exact .choice (.inl rfl) (.inr (.inl rfl))
      · rw [← Except.ok.inj h]
        exact .choice (.inl rfl) (.inr (.inr rfl))
      · cases h
    · split at h
      · rw [← Except.ok.inj h]
        exact .choice (.inr rfl) (.inl rfl)
      · rw [← Except.ok.inj h]
        exact .choice (.inr rfl) (.inr (.inl rfl))
      · rw [← Except.ok.inj h]
        exact .choice (.inr rfl) (.inr (.inr rfl))
      · cases h
    · next hbetween hinq hnin =>
      rw [← Except.ok.inj h]
      exact .other ⟨hbetween, hinq, hnin⟩ hv
  · intro h
    cases h with
    | range hrow =>
        unfold operandOf
        simp only [hrow]
    | choice hop hlist =>
        rcases hop with rfl | rfl <;> rcases hlist with rfl | rfl | rfl <;> rfl
    | other hop _ =>
        obtain ⟨hbetween, hinq, hnin⟩ := hop
        unfold operandOf
        split
        · exact absurd rfl hbetween
        · exact absurd rfl hinq
        · exact absurd rfl hnin
        · rfl

/-- What an operator does not take is reported under its name. -/
private theorem operandOf_of_takes (op : Operator) (v : Value) :
    if takes op v then (operandOf op v).isOk = true
    else operandOf op v = .error (Offence.operand op).report := by
  unfold takes operandOf
  cases op with
  | between =>
      cases hrow : v.sequence? with
      | none => exact rfl
      | some items =>
          match items with
          | [low, high] => exact rfl
          | [] | [_] | _ :: _ :: _ :: _ => exact rfl
  | inq => cases v <;> exact rfl
  | nin => cases v <;> exact rfl
  | _ => exact rfl

/-- An operator with something is read by what stands there. -/
private theorem parseOperator_of_names {key v : Value} {op : Operator}
    (hop : Names key op) (hv : v ≠ .null) (field : Value) :
    parseOperator field key v
      = (do .ok (.compare field op (← operandOf op v) false)) := by
  unfold parseOperator
  rw [hop.not_refused, hop.eq_some]
  cases v with
  | null => exact absurd rfl hv
  | _ => rfl

/-- One comparison: an operator by its name, and an operand that fits it. -/
private theorem parseOperator_eq_ok_iff {field key v : Value} {c : Condition} :
    parseOperator field key v = .ok c
      ↔ ∃ op operand, Names key op ∧ Operand op v operand ∧
        c = .compare field op operand false := by
  constructor
  · intro h
    unfold parseOperator at h
    split at h
    · cases h
    · split at h
      · obtain ⟨shown, -, h⟩ := bind_eq_ok h
        cases h
      · obtain ⟨shown, -, h⟩ := bind_eq_ok h
        cases h
      · next hop hv =>
        obtain ⟨operand, hoperand, h⟩ := bind_eq_ok h
        exact ⟨_, operand, names_of_eq_some hop,
          (operandOf_eq_ok_iff hv).mp hoperand, (Except.ok.inj h).symm⟩
  · rintro ⟨op, operand, hop, hoperand, rfl⟩
    have hv : v ≠ .null := by
      rintro rfl
      cases hoperand with
      | range hrow => cases hrow
      | choice _ hlist => rcases hlist with h | h | h <;> cases h
      | other _ hv => exact hv rfl
    rw [parseOperator_of_names hop hv, (operandOf_eq_ok_iff hv).mpr hoperand]
    rfl

/-- All comparisons of a field, by induction on the operators. -/
private theorem parseOperators_eq_ok_iff {field : Value} {ops : Entries}
    {cs : List Condition} :
    parseOperators field ops = .ok cs ↔ OperatorsRead field ops cs := by
  unfold parseOperators
  induction ops generalizing cs with
  | nil =>
      constructor
      · intro h
        rw [← Except.ok.inj h]
        exact .nil
      · intro h
        cases h
        rfl
  | cons entry ops ih =>
      obtain ⟨key, v⟩ := entry
      rw [List.mapM_cons]
      constructor
      · intro h
        obtain ⟨c, hc, h⟩ := bind_eq_ok h
        obtain ⟨rest, hrest, h⟩ := bind_eq_ok h
        obtain ⟨op, operand, hop, hoperand, rfl⟩ :=
          parseOperator_eq_ok_iff.mp hc
        rw [← Except.ok.inj h]
        exact .cons hop hoperand (ih.mp hrest)
      · intro h
        cases h with
        | cons hop hoperand hrest =>
            rw [parseOperator_eq_ok_iff.mpr ⟨_, _, hop, hoperand, rfl⟩,
              ih.mpr hrest]
            rfl

-- ================================================================== soundness

/-- The groups of a filter by the rules: one for each filter of a row, or a
single one. -/
def Grouped (resolve : Value → Value) (v : Value)
    (gs : List (List Condition)) : Prop :=
  match v.sequence? with
  | some items => RowReads resolve items gs
  | none => ∃ cs, Reads resolve v cs ∧ gs = [cs]

/-- A filter means the groups that it is read into, one behind the other. -/
private theorem reads_iff_grouped {v : Value} {cs : List Condition} :
    Reads resolve v cs ↔ ∃ gs, Grouped resolve v gs ∧ gs.flatten = cs := by
  unfold Grouped
  constructor
  · intro h
    cases hrow : v.sequence? with
    | none => exact ⟨[cs], ⟨cs, h, rfl⟩, List.flatten_singleton⟩
    | some items =>
        cases h with
        | none => cases hrow
        | mapping => cases hrow
        | row hv hitems =>
            rw [hv] at hrow
            exact ⟨_, Option.some.inj hrow ▸ hitems, rfl⟩
  · rintro ⟨gs, hgs, rfl⟩
    cases hrow : v.sequence? with
    | none =>
        rw [hrow] at hgs
        obtain ⟨cs, hcs, rfl⟩ := hgs
        rwa [List.flatten_singleton]
    | some items =>
        rw [hrow] at hgs
        exact .row hrow hgs

/-- A field holds a mapping of operators, or a value that it is to be equal
to. -/
private theorem parseField_eq_ok_iff {key v : Value} {cs : List Condition}
    (hkey : IsField key) :
    parseField resolve key v = .ok cs ↔ EntryReads resolve key v cs := by
  have hrole := roleOf_eq_field_iff.mpr hkey
  constructor
  · intro h
    unfold parseField at h
    split at h
    · exact .operators hkey (parseOperators_eq_ok_iff.mp h)
    · split at h
      · next hscalar =>
        rw [← Except.ok.inj h]
        exact .scalar hkey hscalar
      · obtain ⟨shown, -, h⟩ := bind_eq_ok h
        cases h
  · intro h
    cases h with
    | joinRow hjoins => exact absurd hjoins (hkey.noJunction _)
    | joinOne hjoins => exact absurd hjoins (hkey.noJunction _)
    | index hindex => exact absurd (hindex.symm.trans hkey.noIndex) (by decide)
    | operators _ hops => exact parseOperators_eq_ok_iff.mpr hops
    | scalar _ hscalar =>
        unfold parseField
        cases v with
        | map ops => cases hscalar
        | _ => exact if_pos hscalar

/-- The conditions of one entry. -/
def readEntry (resolve : Value → Value) (key v : Value) :
    Checked (List Condition) :=
  match roleOf key with
  | .join junction => do .ok [.join junction (← groups resolve v)]
  | .refused shown => .error (refusal shown)
  | .operator name =>
    .error (.validation
      ("operator '" ++ name ++ "' must be nested under a field") [])
  | .index => do .ok (← groups resolve v).flatten
  | .field => parseField resolve key v

/-- An entry is read by the role of its key, and then the others are. -/
private theorem entryConditions_cons (key v : Value) (es : Entries) :
    entryConditions resolve ((key, v) :: es) = (do
      let own ← readEntry resolve key v
      let rest ← entryConditions resolve es
      .ok (own ++ rest)) := by
  rw [entryConditions]
  unfold readEntry
  cases roleOf key with
  | join junction => exact (bind_assoc _ _ _).symm
  | index => exact (bind_assoc _ _ _).symm
  | _ => rfl

/-- An entry is read as the rules say, if what it holds is. -/
private theorem readEntry_eq_ok_iff {key v : Value}
    (hv : ∀ {gs}, groups resolve v = .ok gs ↔ Grouped resolve v gs)
    {cs : List Condition} :
    readEntry resolve key v = .ok cs ↔ EntryReads resolve key v cs := by
  have hspec := roleOf_spec key
  -- forwards by the role of the key, backwards by the rule that read it
  constructor
  · intro h
    unfold readEntry at h
    cases hrole : roleOf key with
    | join junction =>
        rw [hrole] at h hspec
        obtain ⟨gs, hgs, h⟩ := bind_eq_ok h
        have hgrouped := hv.mp hgs
        rw [← Except.ok.inj h]
        unfold Grouped at hgrouped
        cases hrow : v.sequence? with
        | some items =>
            rw [hrow] at hgrouped
            exact .joinRow hspec hrow hgrouped
        | none =>
            rw [hrow] at hgrouped
            obtain ⟨cs, hcs, rfl⟩ := hgrouped
            exact .joinOne hspec hrow hcs
    | index =>
        rw [hrole] at h hspec
        obtain ⟨gs, hgs, h⟩ := bind_eq_ok h
        exact .index hspec
          (reads_iff_grouped.mpr ⟨gs, hv.mp hgs, Except.ok.inj h⟩)
    | field =>
        rw [hrole] at h hspec
        exact (parseField_eq_ok_iff hspec).mp h
    | refused shown => rw [hrole] at h; cases h
    | operator name => rw [hrole] at h; cases h
  · intro h
    unfold readEntry
    cases h with
    | joinRow hkey hrow hitems =>
        have hgrouped := hv.mpr (by unfold Grouped; rwa [hrow])
        rw [roleOf_eq_join_iff.mpr hkey]
        simp only [hgrouped, bind, Except.bind]
    | joinOne hkey hrow hcs =>
        have hgrouped :=
          hv.mpr (by unfold Grouped; rw [hrow]; exact ⟨_, hcs, rfl⟩)
        rw [roleOf_eq_join_iff.mpr hkey]
        simp only [hgrouped, bind, Except.bind]
    | index hkey hcs =>
        obtain ⟨gs, hgs, rfl⟩ := reads_iff_grouped.mp hcs
        rw [roleOf_eq_index_iff.mpr hkey]
        simp only [hv.mpr hgs, bind, Except.bind]
    | scalar hkey hscalar =>
        rw [roleOf_eq_field_iff.mpr hkey]
        exact (parseField_eq_ok_iff hkey).mpr (.scalar hkey hscalar)
    | operators hkey hops =>
        rw [roleOf_eq_field_iff.mpr hkey]
        exact (parseField_eq_ok_iff hkey).mpr (.operators hkey hops)

mutual

/-- The parser makes the groups of a filter that the rules make. -/
theorem groups_eq_ok_iff : ∀ (v : Value) {gs : List (List Condition)},
    groups resolve v = .ok gs ↔ Grouped resolve v gs
  | .list items, gs => rowGroups_eq_ok_iff items
  | .tuple items, gs => rowGroups_eq_ok_iff items
  | .null, gs => by
      constructor
      · intro h
        exact ⟨[], .none, (Except.ok.inj h).symm⟩
      · rintro ⟨cs, hcs, rfl⟩
        cases hcs with
        | none => rfl
        | row hrow => cases hrow
  | .map es, gs => by
      constructor
      · intro h
        obtain ⟨cs, hcs, h⟩ := bind_eq_ok h
        exact ⟨cs, .mapping ((entryConditions_eq_ok_iff es).mp hcs),
          (Except.ok.inj h).symm⟩
      · rintro ⟨cs, hcs, rfl⟩
        cases hcs with
        | row hrow => cases hrow
        | mapping hes =>
            show (entryConditions resolve es >>= fun cs => Except.ok [cs]) = _
            rw [(entryConditions_eq_ok_iff es).mpr hes]
            rfl
  | .bool _, gs | .int _, gs | .float _, gs | .text _, gs | .bytes _, gs
  | .date _, gs | .dateTime _, gs | .set _, gs | .symbol _, gs
  | .datatype _, gs | .vertex _ _, gs | .edge _ _ _ _ _ _, gs
  | .vertexProperty _ _ _, gs | .property _ _, gs | .path _, gs
  | .traverser _, gs | .predicate _ _ _ _, gs | .traversal _, gs
  | .foreign _ _, gs => by
      -- any other value is no filter, and no rule reads it
      constructor
      · intro h
        cases h
      · rintro ⟨cs, hcs, -⟩
        cases hcs with
        | row hrow => cases hrow
termination_by structural v => v

/-- A row of filters is read item by item. -/
theorem rowGroups_eq_ok_iff : ∀ (vs : List Value) {gs : List (List Condition)},
    rowGroups resolve vs = .ok gs ↔ RowReads resolve vs gs
  | [], gs => by
      constructor
      · intro h
        rw [← Except.ok.inj h]
        exact .nil
      · intro h
        cases h
        rfl
  | v :: vs, gs => by
      constructor
      · intro h
        obtain ⟨own, hown, h⟩ := bind_eq_ok h
        obtain ⟨rest, hrest, h⟩ := bind_eq_ok h
        rw [← Except.ok.inj h]
        exact .cons (reads_iff_grouped.mpr ⟨own, (groups_eq_ok_iff v).mp hown,
          rfl⟩) ((rowGroups_eq_ok_iff vs).mp hrest)
      · intro h
        cases h with
        | cons hv hvs =>
            obtain ⟨own, hown, rfl⟩ := reads_iff_grouped.mp hv
            rw [rowGroups, (groups_eq_ok_iff v).mpr hown,
              (rowGroups_eq_ok_iff vs).mpr hvs]
            rfl
termination_by structural vs => vs

/-- A mapping is read entry by entry, each by the rule for its role. -/
theorem entryConditions_eq_ok_iff :
    ∀ (es : List (Value × Value)) {cs : List Condition},
      entryConditions resolve es = .ok cs ↔ EntriesRead resolve es cs
  | [], cs => by
      constructor
      · intro h
        rw [← Except.ok.inj h]
        exact .nil
      · intro h
        cases h
        rfl
  | (key, v) :: es, cs => by
      have hentry : ∀ {cs}, readEntry resolve key v = .ok cs
          ↔ EntryReads resolve key v cs :=
        readEntry_eq_ok_iff (groups_eq_ok_iff v)
      rw [entryConditions_cons]
      constructor
      · intro h
        obtain ⟨own, hown, h⟩ := bind_eq_ok h
        obtain ⟨rest, hrest, h⟩ := bind_eq_ok h
        rw [← Except.ok.inj h]
        exact .cons (hentry.mp hown) ((entryConditions_eq_ok_iff es).mp hrest)
      · intro h
        cases h with
        | cons hfirst hrest =>
            rw [hentry.mpr hfirst, (entryConditions_eq_ok_iff es).mpr hrest]
            rfl
termination_by structural es => es

end

/-- The parser gives the conditions that the rules give. -/
theorem parse_eq_ok_iff {w : Value} {cs : List Condition} :
    parse resolve w = .ok cs ↔ Reads resolve w cs := by
  rw [reads_iff_grouped]
  unfold parse
  cases hgs : groups resolve w with
  | error e =>
      constructor
      · intro h
        cases h
      · rintro ⟨gs, hgrouped, -⟩
        rw [(groups_eq_ok_iff w).mpr hgrouped] at hgs
        cases hgs
  | ok gs =>
      have hgrouped := (groups_eq_ok_iff w).mp hgs
      constructor
      · intro h
        exact ⟨gs, hgrouped, Except.ok.inj h⟩
      · rintro ⟨gs', hgrouped', rfl⟩
        rw [(groups_eq_ok_iff w).mpr hgrouped'] at hgs
        rw [← Except.ok.inj hgs]
        rfl

-- ========================================================== the first offence

section failing

variable {β γ : Type} {os more : List Offence} {r : Checked β}

/-- There is a failure just where something is wrong, and it reports what is
wrong first. -/
def Heads (os : List Offence) (r : Checked β) : Prop :=
  match os with
  | [] => r.isOk = true
  | o :: _ => r = .error o.report

/-- If the first part has no offence, those of the second are next. -/
theorem Heads.bind {k : β → Checked γ} (h : Heads os r)
    (hk : ∀ b, Heads more (k b)) :
    Heads (os ++ more) (r >>= k) := by
  cases os with
  | nil =>
      obtain ⟨b, hb⟩ := exists_of_isOk h
      rw [hb]
      exact hk b
  | cons o os =>
      rw [show r = .error o.report from h]
      exact rfl

/-- What is made of a result has no part in it. -/
theorem Heads.andThen {f : β → γ} (h : Heads os r) :
    Heads os (do .ok (f (← r)) : Checked γ) := by
  have hall : Heads (os ++ []) (r >>= fun b => .ok (f b) : Checked γ) :=
    h.bind fun _ => rfl
  rwa [List.append_nil] at hall

/-- A report that shows a key. -/
private theorem heads_showing {key : Value} {report : String → Failure}
    {o : Offence} (ho : o.report = Offence.showing key report) :
    Heads [o] (do .error (report (← key.plain)) : Checked β) := by
  show _ = Except.error o.report
  rw [ho]
  unfold Offence.showing
  cases key.plain <;> rfl

end failing

/-- A comparison is refused for the operator before it is for the operand. -/
private theorem heads_parseOperator (field key v : Value) :
    Heads (operatorOffences key v) (parseOperator field key v) := by
  cases hop : key.text?.bind Operator.ofName? with
  | none =>
      unfold operatorOffences parseOperator
      rw [hop]
      cases key.text?.bind fun s => List.lookup s refused with
      | some shown => exact rfl
      | none => exact heads_showing rfl
  | some op =>
      have hnames := names_of_eq_some hop
      by_cases hv : v = .null
      · rw [hv]
        unfold operatorOffences parseOperator
        rw [hop, hnames.not_refused]
        exact heads_showing rfl
      · have htakes := operandOf_of_takes op v
        have hoffences : operatorOffences key v = if takes op v then []
          else [.operand op] := by
          unfold operatorOffences
          rw [hop, hnames.not_refused]
          cases v with
          | null => exact absurd rfl hv
          | _ => rfl
        rw [hoffences, parseOperator_of_names hnames hv]
        by_cases h : takes op v = true
        · rw [if_pos h] at htakes ⊢
          exact Heads.andThen (show Heads [] _ from htakes)
        · rw [if_neg h] at htakes ⊢
          exact Heads.andThen (show Heads [_] _ from htakes)

/-- A row of comparisons stops at the first offence. -/
private theorem heads_parseOperators (field : Value) (ops : Entries) :
    Heads (ops.flatMap fun e => operatorOffences e.1 e.2)
      (parseOperators field ops) := by
  unfold parseOperators
  induction ops with
  | nil => exact rfl
  | cons entry ops ih =>
      rw [List.flatMap_cons, List.mapM_cons]
      exact (heads_parseOperator _ _ _).bind fun _ => ih.andThen

/-- A field is refused for its value, or for one of its operators. -/
private theorem heads_parseField (key v : Value) :
    Heads (fieldOffences key v) (parseField resolve key v) := by
  unfold fieldOffences
  split
  · exact heads_parseOperators _ _
  · next hmap =>
    have hfield : parseField resolve key v
        = if v.isScalar then .ok [.compare (resolve key) .eq v true]
          else (do
            .error (.validation
              ("unsupported value for field '" ++ (← key.plain) ++ "'")
                [(.text "type", .text v.kind)])) := by
      cases v with
      | map ops => exact absurd rfl (hmap ops)
      | _ => rfl
    rw [hfield]
    split
    · exact rfl
    · exact heads_showing rfl

mutual

/-- A filter fails with what is wrong with it first. -/
theorem heads_groups : ∀ v, Heads (offences v) (groups resolve v)
  | .list items => heads_rowGroups items
  | .tuple items => heads_rowGroups items
  | .map entries => (heads_entryConditions entries).andThen
  | .null => rfl
  | .bool _ | .int _ | .float _ | .text _ | .bytes _ | .date _ | .dateTime _
  | .set _ | .symbol _ | .datatype _ | .vertex _ _ | .edge _ _ _ _ _ _
  | .vertexProperty _ _ _ | .property _ _ | .path _ | .traverser _
  | .predicate _ _ _ _ | .traversal _ | .foreign _ _ => rfl
termination_by structural v => v

/-- A row of filters stops at the first offence in it. -/
theorem heads_rowGroups : ∀ vs, Heads (rowOffences vs) (rowGroups resolve vs)
  | [] => rfl
  | v :: vs => (heads_groups v).bind fun _ => (heads_rowGroups vs).andThen
termination_by structural vs => vs

/-- And so do the entries of a mapping. -/
theorem heads_entryConditions :
    ∀ es, Heads (entriesOffences es) (entryConditions resolve es)
  | [] => rfl
  | (key, v) :: es => by
      have hgroups := heads_groups v
      rw [entryConditions_cons, entriesOffences]
      refine Heads.bind ?_ fun _ => (heads_entryConditions es).andThen
      unfold readEntry
      cases roleOf key with
      | join junction => exact hgroups.andThen
      | index => exact hgroups.andThen
      | field => exact heads_parseField key v
      | refused shown => exact rfl
      | operator name => exact rfl
termination_by structural es => es

end

/-- A filter is read just where the rules read it, and as they do. Where they
do not, something is wrong with it, and what is wrong first is reported: as an
operator without a traversal, or as invalid, unless a key that has no text is
to be shown. Then what comes out is how that text fails: by its type, where
some part of the key is to be a text and is none, or by its value, where it
holds an integer with more digits than are written out. -/
theorem parse_exact (resolve : Value → Value) (w : Value) :
    (∀ cs, parse resolve w = .ok cs ↔ Reads resolve w cs) ∧
      (offences w = [] ↔ ∃ cs, Reads resolve w cs) ∧
      ∀ o more, offences w = o :: more → parse resolve w = .error o.report ∧
        if o.isShowable then
          ∃ message details, o.report = .ofKind o.kind message details
        else
          ∃ key, o.shown? = some key ∧ key.plain = .error o.report ∧
            (o.report = .slip .type ∨ o.report = .slip .value) := by
  have hheads : Heads (offences w) (parse resolve w) :=
    (heads_groups w).andThen (f := List.flatten)
  refine ⟨fun cs => parse_eq_ok_iff, ⟨fun hnone => ?_, ?_⟩,
    fun o more hoffences => ?_⟩
  · rw [hnone] at hheads
    obtain ⟨cs, hcs⟩ := exists_of_isOk hheads
    exact ⟨cs, parse_eq_ok_iff.mp hcs⟩
  · rintro ⟨cs, hcs⟩
    cases hoffences : offences w with
    | nil => rfl
    | cons o more =>
        rw [hoffences, parse_eq_ok_iff.mpr hcs] at hheads
        cases hheads
  · rw [hoffences] at hheads
    exact ⟨hheads, o.report_eq⟩

/-- An edge has no text if its label is none, so a field cannot be reported by
it. -/
example : parse resolve
    (.map [(.edge (.int 1) (.int 5) .null .null .null .null, .null)]) = .error
    (.slip .type) := rfl

end GraphMapper.Filter

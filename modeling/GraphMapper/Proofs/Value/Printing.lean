/-
What has a text, and how the rest fails.

A value is without a text for two reasons only. Something in it has to be a
text and is none, which is a matter of its type; or it holds an integer with
more digits than are ever written out, which is a matter of its value. Both
are slips (`Failure.IsTextless`), whatever the value is and wherever in it
the reason lies: the printers go through a value from the front and stop at
the first part that has no text, and no printer adds a failure of its own
(`Value.failsOnly_literal`, by induction on the value). So are the failures
of keys, which is where a text is needed without being asked for.

Of the two only the second can happen to the values of an application
(`Value.IsApplied`), and it happens just when there is such an integer
somewhere in the value: among items or members, in a key or in what stands
under one, at any depth (`Value.IsApplied.isOk_plain_iff`).

Chain: `Value.Sameness` has the induction over nested values; `Filter.Grammar`,
`Record.Coercion` and `Execution.Retry` say where a text is asked for and what
becomes of its lack.
-/
import GraphMapper.Proofs.Failure.Checked
import GraphMapper.Proofs.Value.Sameness
import GraphMapper.Value.Json

namespace GraphMapper

/-- What a text can fail with: the type or the value of what has none. -/
def Failure.IsTextless (e : Failure) : Prop :=
  e = .slip .type ∨ e = .slip .value

namespace Value

-- ========================================================= every value

/-- An integer has a text unless it has too many digits. -/
private theorem failsOnly_integer (n : Int) :
    FailsOnly Failure.IsTextless (Printer.integer n) := by
  unfold Printer.integer
  split
  · exact failsOnly_ok _
  · exact failsOnly_error (.inr rfl)

/-- What is read as a word is a text, or the name of a type. -/
theorem failsOnly_words (v : Value) :
    FailsOnly Failure.IsTextless v.words := by
  unfold words
  split
  · exact failsOnly_ok _
  · exact failsOnly_error (.inl rfl)

/-- The plain form fails only where the literal form is used and fails. -/
private theorem failsOnly_plainFrom {r : Checked String}
    (h : FailsOnly Failure.IsTextless r) (v : Value) :
    FailsOnly Failure.IsTextless (plainFrom r v) := by
  unfold plainFrom
  split
  all_goals first | exact failsOnly_ok _ | exact h

mutual

/-- Every printer hands on what its parts fail with. -/
theorem failsOnly_literal :
    ∀ v : Value, FailsOnly Failure.IsTextless v.literal
  | .int n => failsOnly_integer n
  | .list items => (failsOnly_literals items).bind fun _ => failsOnly_ok _
  | .tuple items => (failsOnly_literals items).bind fun _ => failsOnly_ok _
  | .set items => (failsOnly_literals items).bind fun _ => failsOnly_ok _
  | .map es => (failsOnly_entryLiterals es).bind fun _ => failsOnly_ok _
  | .vertex id _ =>
    (failsOnly_plainFrom (failsOnly_literal id) id).bind fun _ =>
      failsOnly_ok _
  | .edge id label outId _ inId _ =>
    (failsOnly_plainFrom (failsOnly_literal id) id).bind fun _ =>
      (failsOnly_plainFrom (failsOnly_literal outId) outId).bind fun _ =>
        (failsOnly_words label).bind fun _ =>
          (failsOnly_plainFrom (failsOnly_literal inId) inId).bind fun _ =>
            failsOnly_ok _
  | .vertexProperty _ label value =>
    (failsOnly_plainFrom (failsOnly_literal label) label).bind fun _ =>
      (failsOnly_plainFrom (failsOnly_literal value) value).bind fun _ =>
        failsOnly_ok _
  | .property key value =>
    (failsOnly_plainFrom (failsOnly_literal key) key).bind fun _ =>
      (failsOnly_plainFrom (failsOnly_literal value) value).bind fun _ =>
        failsOnly_ok _
  | .path objects => (failsOnly_plains objects).bind fun _ => failsOnly_ok _
  | .traverser object => failsOnly_plainFrom (failsOnly_literal object) object
  | .predicate _ _ operand bound => by
    have hoperand := failsOnly_plainFrom (failsOnly_literal operand) operand
    have hbound := failsOnly_plainFrom (failsOnly_literal bound) bound
    cases bound with
    | null => exact hoperand.bind fun _ => failsOnly_ok _
    | _ => exact hoperand.bind fun _ => hbound.bind fun _ => failsOnly_ok _
  | .traversal steps => by
    unfold literal
    split
    · exact failsOnly_ok _
    · exact (failsOnly_stepLiterals steps).bind fun _ => failsOnly_ok _
  | .null | .bool _ | .float _ | .text _ | .bytes _ | .date _ | .dateTime _
  | .symbol _ | .datatype _ | .foreign _ _ => failsOnly_ok _

/-- Items are printed from left to right. -/
theorem failsOnly_literals : ∀ items : List Value,
    FailsOnly Failure.IsTextless (literals items)
  | [] => failsOnly_ok _
  | v :: vs =>
    (failsOnly_literal v).bind fun _ => (failsOnly_literals vs).bind fun _ =>
      failsOnly_ok _

/-- The same for the items of a path, which show texts as they are. -/
theorem failsOnly_plains : ∀ items : List Value,
    FailsOnly Failure.IsTextless (plains items)
  | [] => failsOnly_ok _
  | v :: vs =>
    (failsOnly_plainFrom (failsOnly_literal v) v).bind fun _ =>
      (failsOnly_plains vs).bind fun _ => failsOnly_ok _

/-- An entry is printed with its key in front. -/
theorem failsOnly_entryLiterals : ∀ es : List (Value × Value),
    FailsOnly Failure.IsTextless (entryLiterals es)
  | [] => failsOnly_ok _
  | (k, v) :: es =>
    (failsOnly_literal k).bind fun _ => (failsOnly_literal v).bind fun _ =>
      (failsOnly_entryLiterals es).bind fun _ => failsOnly_ok _

/-- The steps of a traversal, one after the other. -/
theorem failsOnly_stepLiterals : ∀ steps : List Step,
    FailsOnly Failure.IsTextless (stepLiterals steps)
  | [] => failsOnly_ok _
  | s :: ss =>
    (failsOnly_stepLiteral s).bind fun _ =>
      (failsOnly_stepLiterals ss).bind fun _ => failsOnly_ok _

/-- A step shows its arguments. -/
theorem failsOnly_stepLiteral : ∀ s : Step,
    FailsOnly Failure.IsTextless (stepLiteral s)
  | .call _ args => (failsOnly_literals args).bind fun _ => failsOnly_ok _

end

/-- A text is its own plain text, and other values are printed. -/
theorem failsOnly_plain (v : Value) :
    FailsOnly Failure.IsTextless v.plain :=
  failsOnly_plainFrom (failsOnly_literal v) v

/-- What is neither a row nor a mapping has a JSON text, or has a type without
one. -/
private theorem failsOnly_jsonAtom (v : Value) :
    FailsOnly Failure.IsTextless (jsonAtom v) := by
  unfold jsonAtom
  split
  · exact failsOnly_ok _
  · exact failsOnly_ok _
  · exact failsOnly_integer _
  · exact failsOnly_ok _
  · split
    · exact failsOnly_ok _
    · exact (failsOnly_plain _).map _

/-- A key of a JSON object is a text, or is made one. -/
private theorem failsOnly_jsonKey (v : Value) :
    FailsOnly Failure.IsTextless (jsonKey v) := by
  unfold jsonKey
  split
  · exact failsOnly_ok _
  · exact failsOnly_ok _
  · exact failsOnly_integer _
  · exact failsOnly_ok _
  · exact failsOnly_words _

mutual

/-- Neither does the JSON text add a failure of its own. -/
theorem failsOnly_json : ∀ v : Value, FailsOnly Failure.IsTextless v.json
  | .list items | .tuple items => (failsOnly_jsonItems items).map _
  | .map es => (failsOnly_jsonEntries es).map _
  | .null | .bool _ | .int _ | .float _ | .text _ | .bytes _ | .date _
  | .dateTime _ | .set _ | .symbol _ | .datatype _ | .vertex _ _
  | .edge _ _ _ _ _ _ | .vertexProperty _ _ _ | .property _ _ | .path _
  | .traverser _ | .predicate _ _ _ _ | .traversal _ | .foreign _ _ => by
    simp only [json]
    exact failsOnly_jsonAtom _

/-- The items of a JSON array. -/
theorem failsOnly_jsonItems : ∀ items : List Value,
    FailsOnly Failure.IsTextless (jsonItems items)
  | [] => failsOnly_ok _
  | v :: vs =>
    (failsOnly_json v).bind fun _ => (failsOnly_jsonItems vs).bind fun _ =>
      failsOnly_ok _

/-- The entries of a JSON object. -/
theorem failsOnly_jsonEntries : ∀ es : List (Value × Value),
    FailsOnly Failure.IsTextless (jsonEntries es)
  | [] => failsOnly_ok _
  | (k, v) :: es =>
    (failsOnly_jsonKey k).bind fun _ => (failsOnly_json v).bind fun _ =>
      (failsOnly_jsonEntries es).bind fun _ => failsOnly_ok _

end

-- ================================================================ keys

mutual

/-- What may be no key fails in one of the two ways as well. -/
theorem isTextless_keyFault : ∀ v : Value, v.keyFault.IsTextless
  | .tuple items => isTextless_keysFault items
  | .path objects => by
    unfold keyFault
    split
    · exact .inl rfl
    · next he => exact failsOnly_literals objects _ he
  | .vertex id _ => isTextless_keyFault id
  | .edge id _ _ _ _ _ => isTextless_keyFault id
  | .vertexProperty id _ _ => isTextless_keyFault id
  | .property key value => by
    unfold keyFault
    split
    · exact isTextless_keyFault value
    · exact isTextless_keyFault key
  | .null | .bool _ | .int _ | .float _ | .text _ | .bytes _ | .date _
  | .dateTime _ | .list _ | .set _ | .map _ | .symbol _ | .datatype _
  | .traverser _ | .predicate _ _ _ _ | .traversal _ | .foreign _ _ =>
    .inl rfl

/-- Of some values that are not all keys, the first that is none. -/
theorem isTextless_keysFault : ∀ items : List Value,
    (keysFault items).IsTextless
  | [] => .inl rfl
  | v :: vs => by
    unfold keysFault
    split
    · exact isTextless_keysFault vs
    · exact isTextless_keyFault v

end

-- ============================================= values of an application

variable {v w : Value} {items : List Value} {es : Entries} {n : Int}

/-- Values as applications make them: nothing of the graph, and nothing of
its traversals. -/
inductive IsApplied : Value → Prop where
  | bare {v : Value} (h : v.isBare = true) : IsApplied v
  | symbol (s : Symbol) : IsApplied (.symbol s)
  | datatype (t : Datatype) : IsApplied (.datatype t)
  | foreign (name : String) (mark : Nat) : IsApplied (.foreign name mark)
  | list {items : List Value} (h : ∀ v ∈ items, IsApplied v) :
      IsApplied (.list items)
  | tuple {items : List Value} (h : ∀ v ∈ items, IsApplied v) :
      IsApplied (.tuple items)
  | set {items : List Value} (h : ∀ v ∈ items, IsApplied v) :
      IsApplied (.set items)
  | map {es : Entries} (hkeys : ∀ e ∈ es, IsApplied e.1)
      (hvalues : ∀ e ∈ es, IsApplied e.2) : IsApplied (.map es)

/-- The integer is somewhere in the value, at any depth. -/
inductive Holds (n : Int) : Value → Prop where
  | self : Holds n (.int n)
  | list {items : List Value} {v : Value} (hv : v ∈ items) (h : Holds n v) :
      Holds n (.list items)
  | tuple {items : List Value} {v : Value} (hv : v ∈ items) (h : Holds n v) :
      Holds n (.tuple items)
  | set {items : List Value} {v : Value} (hv : v ∈ items) (h : Holds n v) :
      Holds n (.set items)
  | key {es : Entries} {e : Value × Value} (he : e ∈ es) (h : Holds n e.1) :
      Holds n (.map es)
  | value {es : Entries} {e : Value × Value} (he : e ∈ es) (h : Holds n e.2) :
      Holds n (.map es)

/-- Every integer in the value has few enough digits to be written out. -/
def IsWritable (v : Value) : Prop :=
  ∀ n, v.Holds n →
    (Nat.toDigits 10 n.natAbs).length ≤ Numeral.maxIntegerDigits

/-- What holds the integers of its items is writable if these are. -/
private theorem isWritable_items
    (h : ∀ n, w.Holds n ↔ ∃ v ∈ items, v.Holds n) :
    w.IsWritable ↔ ∀ v ∈ items, v.IsWritable := by
  unfold IsWritable
  simp only [h]
  exact ⟨fun hw v hv n hn => hw n ⟨v, hv, hn⟩,
    fun hw n ⟨v, hv, hn⟩ => hw v hv n hn⟩

/-- A list is written out if its items are. -/
theorem isWritable_list :
    (Value.list items).IsWritable ↔ ∀ v ∈ items, v.IsWritable := by
  refine isWritable_items fun n => ⟨fun h => ?_, fun ⟨v, hv, h⟩ => .list hv h⟩
  cases h with
  | list hv h => exact ⟨_, hv, h⟩

/-- And so is a tuple. -/
theorem isWritable_tuple :
    (Value.tuple items).IsWritable ↔ ∀ v ∈ items, v.IsWritable := by
  refine isWritable_items fun n =>
    ⟨fun h => ?_, fun ⟨v, hv, h⟩ => .tuple hv h⟩
  cases h with
  | tuple hv h => exact ⟨_, hv, h⟩

/-- And a set. -/
private theorem isWritable_set :
    (Value.set items).IsWritable ↔ ∀ v ∈ items, v.IsWritable := by
  refine isWritable_items fun n => ⟨fun h => ?_, fun ⟨v, hv, h⟩ => .set hv h⟩
  cases h with
  | set hv h => exact ⟨_, hv, h⟩

/-- A mapping is written out with its keys. -/
theorem isWritable_map : (Value.map es).IsWritable
    ↔ ∀ e ∈ es, e.1.IsWritable ∧ e.2.IsWritable := by
  constructor
  · exact fun h e he =>
      ⟨fun n hn => h n (.key he hn), fun n hn => h n (.value he hn)⟩
  · intro h n hn
    cases hn with
    | key he hn => exact (h _ he).1 n hn
    | value he hn => exact (h _ he).2 n hn

/-- An integer has a text just when it can be written out. -/
theorem isOk_integer : (Printer.integer n).isOk = true
    ↔ (Value.int n).IsWritable := by
  have hint : (Value.int n).IsWritable
      ↔ (Nat.toDigits 10 n.natAbs).length ≤ Numeral.maxIntegerDigits := by
    refine ⟨fun h => h n .self, fun h m hm => ?_⟩
    cases hm with
    | self => exact h
  unfold Printer.integer
  rw [hint]
  split
  · next h => exact iff_of_true rfl h
  · next h => exact iff_of_false Bool.false_ne_true h

/-- Items have a text if each has one. -/
private theorem isOk_literals (items : List Value) :
    (literals items).isOk = items.all fun v => v.literal.isOk := by
  induction items with
  | nil => rfl
  | cons v items ih =>
      rw [literals, List.all_cons, ← ih]
      cases v.literal <;> cases literals items <;> rfl

/-- Entries have one if each key and each value has. -/
private theorem isOk_entryLiterals (es : Entries) : (entryLiterals es).isOk
    = es.all fun e => e.1.literal.isOk && e.2.literal.isOk := by
  induction es with
  | nil => rfl
  | cons e es ih =>
      rw [entryLiterals, List.all_cons, ← ih]
      cases e.1.literal <;> cases e.2.literal <;> cases entryLiterals es <;>
        rfl

/-- The two forms of a value are missing together. -/
theorem isOk_plain (v : Value) : v.plain.isOk = v.literal.isOk := by
  unfold plain plainFrom
  split
  all_goals simp only [literal, Except.isOk, Except.toBool]

/-- A value that holds no integer can be written. -/
private theorem isOk_literal_iff_of_not_holds (hok : v.literal.isOk = true)
    (hno : ∀ n, ¬v.Holds n) : v.literal.isOk = true ↔ v.IsWritable :=
  iff_of_true hok fun n hn => absurd hn (hno n)

/-- A value of an application has a literal form unless an integer in it is
too long. -/
theorem IsApplied.isOk_literal_iff (h : v.IsApplied) :
    v.literal.isOk = true ↔ v.IsWritable := by
  -- on the value: a container prints when its items do
  induction h with
  | @bare v h =>
      cases v with
      | int n => exact isOk_integer
      | null | bool _ | float _ | text _ | bytes _ | date _ | dateTime _ =>
          exact isOk_literal_iff_of_not_holds rfl fun n hn => nomatch hn
      | _ => cases h
  | symbol s => exact isOk_literal_iff_of_not_holds rfl fun n hn => nomatch hn
  | datatype t =>
      exact isOk_literal_iff_of_not_holds rfl fun n hn => nomatch hn
  | foreign name mark =>
      exact isOk_literal_iff_of_not_holds rfl fun n hn => nomatch hn
  | @list items _ ih =>
      have hitems : (Value.list items).literal.isOk = (literals items).isOk :=
        isOk_map (literals items) fun parts =>
          "[" ++ Printer.joined parts ++ "]"
      rw [hitems, isOk_literals, List.all_eq_true, isWritable_list]
      exact forall₂_congr ih
  | @tuple items _ ih =>
      have hitems : (Value.tuple items).literal.isOk = (literals items).isOk :=
        isOk_map (literals items) Printer.tupleText
      rw [hitems, isOk_literals, List.all_eq_true, isWritable_tuple]
      exact forall₂_congr ih
  | @set items _ ih =>
      have hitems : (Value.set items).literal.isOk = (literals items).isOk :=
        isOk_map (literals items) Printer.setText
      rw [hitems, isOk_literals, List.all_eq_true, isWritable_set]
      exact forall₂_congr ih
  | @map es _ _ ihKeys ihValues =>
      have hentries : (Value.map es).literal.isOk = (entryLiterals es).isOk :=
        isOk_map (entryLiterals es) fun parts =>
          "\x7b" ++ Printer.joined parts ++ "\x7d"
      rw [hentries, isOk_entryLiterals, List.all_eq_true, isWritable_map]
      simp only [Bool.and_eq_true]
      exact forall₂_congr fun e he => and_congr (ihKeys e he) (ihValues e he)

/-- So an application's value has a plain text just when it can be written
out. -/
theorem IsApplied.isOk_plain_iff (h : v.IsApplied) :
    v.plain.isOk = true ↔ v.IsWritable := by
  rw [isOk_plain, h.isOk_literal_iff]

end Value

end GraphMapper

/-
Which keys a selection tests.

A filter names a field for every comparison that it makes (`tested`). The
conditions that it is read into are on the keys of these fields, in the same
order, and so are the steps that they become, those in the traversals under
`and` and `or` among them (`testKeys_select`). The key of the primary key is
the reserved one, and it is the key of nothing else
(`conditionKey_eq_idKey_iff`).

# Two passes, two halves

The first half is about reading: `keysInAll_parse` goes through a filter as the
parser does, entry by entry, with an induction over filters and rows at once.
The second is about lowering: `testKeys_lowerAll` goes through the conditions,
and through the groups under `and` and `or` with it. Neither half looks at what
is compared with what, so both hold whatever operators there are.

A field whose key could not be told is not read at all, which is why the
statements need no assumption on the names of fields.

Chain: `Filter.Sought` and `Record.Identity` for the key of a field; used by
`Query.PrimaryKey`.
-/
import GraphMapper.Proofs.Filter.Sought
import GraphMapper.Proofs.Record.Identity

namespace GraphMapper

-- ==================================================== statement vocabulary

namespace Filter

/-- A field is tested once with a scalar, and with each operator of a
mapping. -/
def fieldTested (key : Value) : Value → List Value
  | .map ops => ops.map fun _ => key
  | _ => [key]

mutual

/-- The fields that a filter tests, from left to right, as often as it does. -/
def tested : Value → List Value
  | .list items => rowTested items
  | .tuple items => rowTested items
  | .map entries => entriesTested entries
  | _ => []
termination_by structural v => v

/-- The fields that a row of filters tests. -/
def rowTested : List Value → List Value
  | [] => []
  | v :: vs => tested v ++ rowTested vs
termination_by structural vs => vs

/-- The fields that the entries of one filter test, an entry under a joining
word by its row. -/
def entriesTested : List (Value × Value) → List Value
  | [] => []
  | (key, v) :: es =>
    (match roleOf key with
      | .join _ => tested v
      | .index => tested v
      | .field => fieldTested key v
      | .refused _ => []
      | .operator _ => []) ++ entriesTested es
termination_by structural es => es

end

mutual

/-- The keys that a condition compares under. -/
def keysIn : Condition → List Value
  | .compare field _ _ _ => [field]
  | .join _ groups => keysInGroups groups
termination_by structural c => c

/-- The keys that conditions are on, one after the other. -/
def keysInAll : List Condition → List Value
  | [] => []
  | c :: cs => keysIn c ++ keysInAll cs
termination_by structural cs => cs

/-- The keys of all groups that are to be joined. -/
def keysInGroups : List (List Condition) → List Value
  | [] => []
  | g :: gs => keysInAll g ++ keysInGroups gs
termination_by structural gs => gs

end

mutual

/-- The keys that a traversal tests under, and the traversals that it joins. -/
def testKeys : List Step → List Value
  | [] => []
  | .call name args :: rest =>
    (match name with
      | .has => args.take 1
      | .and => childrenKeys args
      | .or => childrenKeys args
      | _ => []) ++ testKeys rest
termination_by structural steps => steps

/-- The keys that the arguments of a step test. -/
def childrenKeys : List Value → List Value
  | [] => []
  | v :: vs => childKeys v ++ childrenKeys vs
termination_by structural vs => vs

/-- The keys that a traversal given as an argument tests; no other argument
tests any. -/
def childKeys : Value → List Value
  | .traversal steps => testKeys steps
  | _ => []
termination_by structural v => v

end

variable {m : Model} {resolve : Value → Value} {w : Value}

-- ============================================================== conditions

/-- Conditions behind each other are on their keys behind each other. -/
private theorem keysInAll_append (cs more : List Condition) :
    keysInAll (cs ++ more) = keysInAll cs ++ keysInAll more := by
  induction cs with
  | nil => rfl
  | cons c cs ih =>
      rw [List.cons_append, keysInAll, keysInAll, ih, List.append_assoc]

/-- It makes no difference whether groups are taken together first. -/
private theorem keysInAll_flatten (gs : List (List Condition)) :
    keysInAll gs.flatten = keysInGroups gs := by
  induction gs with
  | nil => rfl
  | cons g gs ih => rw [List.flatten_cons, keysInAll_append, keysInGroups, ih]

/-- A comparison is on the field that it is under. -/
private theorem keysIn_parseOperator {field key v : Value} {c : Condition}
    (h : parseOperator field key v = .ok c) : keysIn c = [field] := by
  unfold parseOperator at h
  split at h
  · cases h
  · split at h
    · obtain ⟨shown, -, h⟩ := bind_eq_ok h
      cases h
    · obtain ⟨shown, -, h⟩ := bind_eq_ok h
      cases h
    · obtain ⟨operand, -, h⟩ := bind_eq_ok h
      rw [← Except.ok.inj h]
      rfl

/-- All comparisons of one field are on that field. -/
private theorem keysInAll_parseOperators {field : Value} {es : Entries}
    {cs : List Condition} (h : parseOperators field es = .ok cs) :
    keysInAll cs = es.map fun _ => field := by
  unfold parseOperators at h
  induction es generalizing cs with
  | nil =>
      rw [← Except.ok.inj h]
      rfl
  | cons e es ih =>
      rw [List.mapM_cons] at h
      obtain ⟨c, hc, h⟩ := bind_eq_ok h
      obtain ⟨rest, hrest, h⟩ := bind_eq_ok h
      rw [← Except.ok.inj h, keysInAll, keysIn_parseOperator hc, ih hrest]
      rfl

/-- An entry of a filter is read into conditions on its field, under the key
that the field is stored under. -/
private theorem keysInAll_parseField {key v : Value} {cs : List Condition}
    (h : parseField resolve key v = .ok cs) :
    keysInAll cs = (fieldTested key v).map resolve := by
  unfold parseField at h
  split at h
  · rw [keysInAll_parseOperators h, fieldTested, List.map_map]
    rfl
  · next hmap =>
    have htested : fieldTested key v = [key] := by
      unfold fieldTested
      split
      · next ops => exact absurd rfl (hmap ops)
      · rfl
    rw [htested]
    split at h
    · rw [← Except.ok.inj h]
      rfl
    · obtain ⟨shown, -, h⟩ := bind_eq_ok h
      cases h

mutual

/-- A filter is read into conditions on the keys of the fields that it
tests. -/
theorem keysIn_groups :
    ∀ {v : Value} {gs : List (List Condition)}, groups resolve v = .ok gs →
      keysInGroups gs = (tested v).map resolve
  | .null, gs, h => by
      rw [← Except.ok.inj h]
      rfl
  | .list items, gs, h => keysIn_rowGroups h
  | .tuple items, gs, h => keysIn_rowGroups h
  | .map entries, gs, h => by
      obtain ⟨cs, hcs, h⟩ := bind_eq_ok h
      rw [← Except.ok.inj h, keysInGroups, keysInGroups, List.append_nil,
        keysIn_entryConditions hcs, tested]
  | .bool _, gs, h | .int _, gs, h | .float _, gs, h | .text _, gs, h
  | .bytes _, gs, h | .date _, gs, h | .dateTime _, gs, h | .set _, gs, h
  | .symbol _, gs, h | .datatype _, gs, h | .vertex _ _, gs, h
  | .edge _ _ _ _ _ _, gs, h | .vertexProperty _ _ _, gs, h
  | .property _ _, gs, h | .path _, gs, h | .traverser _, gs, h
  | .predicate _ _ _ _, gs, h | .traversal _, gs, h
  | .foreign _ _, gs, h => by cases h
termination_by structural v => v

/-- Filters in a row are read into groups on their keys. -/
theorem keysIn_rowGroups : ∀ {vs : List Value} {gs : List (List Condition)},
    rowGroups resolve vs = .ok gs →
    keysInGroups gs = (rowTested vs).map resolve
  | [], gs, h => by
      rw [← Except.ok.inj h]
      rfl
  | v :: vs, gs, h => by
      obtain ⟨own, hown, h⟩ := bind_eq_ok h
      obtain ⟨rest, hrest, h⟩ := bind_eq_ok h
      rw [← Except.ok.inj h, keysInGroups, keysInAll_flatten,
        keysIn_groups hown, keysIn_rowGroups hrest, rowTested, List.map_append]
termination_by structural vs => vs

/-- The entries of a filter are read into conditions on their keys. -/
theorem keysIn_entryConditions :
    ∀ {es : List (Value × Value)} {cs : List Condition},
      entryConditions resolve es = .ok cs →
      keysInAll cs = (entriesTested es).map resolve
  | [], cs, h => by
      rw [← Except.ok.inj h]
      rfl
  -- an entry's own conditions come first, whatever the role of its key
  | (key, v) :: es, cs, h => by
      rw [entryConditions] at h
      rw [entriesTested]
      cases hrole : roleOf key with
      | join junction =>
          rw [hrole] at h
          obtain ⟨gs, hgs, h⟩ := bind_eq_ok h
          obtain ⟨own, hown, h⟩ := bind_eq_ok h
          obtain ⟨rest, hrest, h⟩ := bind_eq_ok h
          rw [← Except.ok.inj h, ← Except.ok.inj hown, keysInAll_append,
            keysInAll, keysInAll, List.append_nil, keysIn, keysIn_groups hgs,
            keysIn_entryConditions hrest, List.map_append]
      | refused shown =>
          rw [hrole] at h
          cases h
      | operator name =>
          rw [hrole] at h
          cases h
      | index =>
          rw [hrole] at h
          obtain ⟨gs, hgs, h⟩ := bind_eq_ok h
          obtain ⟨own, hown, h⟩ := bind_eq_ok h
          obtain ⟨rest, hrest, h⟩ := bind_eq_ok h
          rw [← Except.ok.inj h, ← Except.ok.inj hown, keysInAll_append,
            keysInAll_flatten, keysIn_groups hgs, keysIn_entryConditions hrest,
            List.map_append]
      | field =>
          rw [hrole] at h
          obtain ⟨own, hown, h⟩ := bind_eq_ok h
          obtain ⟨rest, hrest, h⟩ := bind_eq_ok h
          rw [← Except.ok.inj h, keysInAll_append, keysInAll_parseField hown,
            keysIn_entryConditions hrest, List.map_append]
termination_by structural es => es

end

/-- A filter is read into conditions on the keys of just the fields that it
tests. -/
theorem keysInAll_parse {cs : List Condition} (h : parse resolve w = .ok cs) :
    keysInAll cs = (tested w).map resolve := by
  unfold parse at h
  cases hgroups : groups resolve w with
  | error e =>
      rw [hgroups] at h
      cases h
  | ok gs =>
      rw [hgroups] at h
      rw [← Except.ok.inj h, keysInAll_flatten, keysIn_groups hgroups]

-- =================================================================== steps

/-- Steps behind each other test their keys behind each other. -/
private theorem testKeys_append (s t : List Step) :
    testKeys (s ++ t) = testKeys s ++ testKeys t := by
  induction s with
  | nil => rfl
  | cons step s ih =>
      obtain ⟨name, args⟩ := step
      show _ ++ testKeys (s ++ t) = (_ ++ testKeys s) ++ testKeys t
      rw [ih, List.append_assoc]

mutual

/-- Conditions become tests under their keys. -/
theorem testKeys_lower :
    ∀ {c : Condition} {steps : List Step},
      lower c = .ok steps → testKeys steps = keysIn c
  | .compare field op operand true, steps, h => by
      rw [← Except.ok.inj h]
      rfl
  | .compare field op operand false, steps, h => by
      obtain ⟨test, -, h⟩ := bind_eq_ok h
      rw [← Except.ok.inj h]
      rfl
  | .join junction gs, steps, h => by
      obtain ⟨children, hchildren, h⟩ := bind_eq_ok h
      rw [keysIn, ← childrenKeys_lowerGroups hchildren, ← Except.ok.inj h]
      cases children with
      | nil => rfl
      | cons child children =>
          cases junction <;> exact List.append_nil _
termination_by structural c => c

/-- The steps of conditions test the keys that the conditions are on. -/
theorem testKeys_lowerAll :
    ∀ {cs : List Condition} {steps : List Step}, lowerAll cs = .ok steps →
      testKeys steps = keysInAll cs
  | [], steps, h => by
      rw [← Except.ok.inj h]
      rfl
  | c :: cs, steps, h => by
      obtain ⟨first, hfirst, h⟩ := bind_eq_ok h
      obtain ⟨rest, hrest, h⟩ := bind_eq_ok h
      rw [← Except.ok.inj h, testKeys_append, testKeys_lower hfirst,
        testKeys_lowerAll hrest, keysInAll]
termination_by structural cs => cs

/-- The traversals of groups test the keys of the groups. -/
theorem childrenKeys_lowerGroups :
    ∀ {gs : List (List Condition)} {children : List Value},
      lowerGroups gs = .ok children → childrenKeys children = keysInGroups gs
  | [], children, h => by
      rw [← Except.ok.inj h]
      rfl
  | g :: gs, children, h => by
      obtain ⟨steps, hsteps, h⟩ := bind_eq_ok h
      obtain ⟨rest, hrest, h⟩ := bind_eq_ok h
      rw [← Except.ok.inj h, childrenKeys, childKeys,
        childrenKeys_lowerGroups hrest, keysInGroups]
      cases g with
      | nil => rfl
      | cons c cs =>
          rw [List.isEmpty_cons, if_neg Bool.false_ne_true,
            testKeys_lowerAll hsteps]
termination_by structural gs => gs

end

-- ============================================================== selections

/-- What is not given tests nothing. -/
private theorem tested_of_not_given (h : w.isGiven = false) :
    tested w = [] := by
  cases w with
  | list items =>
      cases items with
      | nil => rfl
      | cons v vs => cases h
  | tuple items =>
      cases items with
      | nil => rfl
      | cons v vs => cases h
  | map entries =>
      cases entries with
      | nil => rfl
      | cons e es => cases h
  | _ => rfl

/-- A selection goes straight to the element of an id, or tests the keys of the
fields that the filter tests. -/
theorem testKeys_select {steps : List Step} (h : select m w = .ok steps) :
    (∃ id, soughtId? m.idField w = .ok (some id) ∧
      steps = [source m [id], labelled m.label]) ∨
      testKeys steps = (tested w).map m.conditionKey := by
  unfold select at h
  obtain ⟨sought, hsought, h⟩ := bind_eq_ok h
  cases sought with
  | some id => exact .inl ⟨id, hsought, (Except.ok.inj h).symm⟩
  | none =>
      obtain ⟨cs, hcs, h⟩ := bind_eq_ok h
      obtain ⟨tests, htests, h⟩ := bind_eq_ok h
      have hread : tested (if w.isGiven then w else .map []) = tested w := by
        split
        · rfl
        · next hgiven =>
            exact (tested_of_not_given (Bool.eq_false_iff.mpr hgiven)).symm
      have hsource : testKeys (source m [] :: labelled m.label :: tests)
          = testKeys tests := by
        unfold source
        cases m.isEdge <;> rfl
      right
      rw [← Except.ok.inj h, hsource, testKeys_lowerAll htests,
        keysInAll_parse hcs, hread]

end Filter

-- =================================================================== the id

namespace Model

variable {m : Model} {name : Value}

/-- The primary key is tested and sorted by under the reserved key, and no
other field is. -/
theorem conditionKey_eq_idKey_iff (h : m.KeepsId) (hname : name ≠ .idKey) :
    m.conditionKey name = .idKey ↔ m.namesId name = true := by
  unfold conditionKey
  constructor
  · intro hkey
    by_contra hother
    rw [if_neg (show ¬name.equal m.idField = true from hother)] at hkey
    unfold storageKey column at hkey
    cases hfound : m.field? name with
    | none =>
        rw [hfound] at hkey
        exact hname hkey
    | some f =>
        rw [hfound] at hkey
        have hf := h.reserved f (List.mem_of_find?_eq_some hfound)
        replace hkey : (if f.column.isGiven then f.column else name)
            = .idKey := hkey
        split at hkey
        · exact hf.2 hkey
        · exact hname hkey
  · intro hid
    exact if_pos hid

end Model

end GraphMapper

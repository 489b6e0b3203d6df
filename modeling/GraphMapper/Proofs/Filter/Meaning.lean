/-
What a filter means, and that its conditions say the same.

An element meets a filter (`Filter.meets`) if it passes the test of every field
that the filter mentions, where `and` and `or` hold filters of their own: all
of them have to be met, or some. This is read off the filter as it stands. What
an element has not passes no test, not even a negated one.

A parser makes conditions out of a filter, and of those it can be asked just as
well which elements they let through (`Condition.admits`). The two agree on
every filter that the parser accepts, and the conditions are all formed so that
they can be put to a graph (`Means`). Rows of filters are read twice, as all of
them and as some of them, because the parser does not know yet how its groups
will be joined (`GroupsMean`).

# The argument

The parser is followed from the inside out: one comparison, the comparisons of
a field, an entry, a filter. Each time what is read means what was written, and
where two such parts stand behind each other, the conditions mean both
(`Means.append`). Only rows need more. An empty row is met by everything under
`and` and by nothing under `or`, so the row carries the value that it has when
there is none (`RowMeans`).

Main statement: `parse_means`.

Chain: `Failure.Checked` for what succeeds and `Value.Sameness` for values that
are compared; `Filter.Selection` goes on from conditions to the steps of a
traversal.
-/
import GraphMapper.Filter.Scope
import GraphMapper.Graph.Evaluator
import GraphMapper.Proofs.Failure.Checked
import GraphMapper.Proofs.Value.Sameness

namespace GraphMapper

-- ================================================================= elements

namespace Element

/-- What an element has under a key; the reserved keys address its id and its
label. -/
def at? (e : Element) (key : Value) : Option Value :=
  match key with
  | .symbol (.reserved .id) => some e.id
  | .symbol (.reserved .label) => some e.label
  | key => Entries.lookup? key e.props

/-- The element has something under the key, and it passes the test. -/
def has (e : Element) (key : Value) (test : Value → Bool) : Bool :=
  (e.at? key).any test

end Element

namespace Operator

/-- The values that a choice is made from. -/
def choices : Value → List Value
  | .list xs | .tuple xs | .set xs => xs
  | _ => []

/-- Whether a value passes the comparison with an operand. Values without an
order are in no order, and only texts have parts. -/
def holds (op : Operator) (v x : Value) : Bool :=
  match op with
  | .eq => v.equal x
  | .neq => !v.equal x
  | .gt => Graph.holds .greater v x
  | .gte => Graph.holds .atLeast v x
  | .lt => Graph.holds .less v x
  | .lte => Graph.holds .atMost v x
  | .between =>
    match x.sequence? with
    | some [low, high] => Graph.holds .atMost low v && Graph.holds .less v high
    | _ => false
  | .inq => v.isIn (choices x)
  | .nin => !v.isIn (choices x)
  | .like | .ilike =>
    match v.text?, x.text? with
    | some s, some part => Text.contains s part
    | _, _ => false
  | .nlike | .nilike =>
    match v.text?, x.text? with
    | some s, some part => !Text.contains s part
    | _, _ => false
  | .unknown _ => false

/-- The operand is what a condition with the operator holds. -/
def takes : Operator → Value → Bool
  | .between, .tuple [_, _] => true
  | .between, _ => false
  | .inq, .list _ | .nin, .list _ => true
  | .inq, _ | .nin, _ => false
  | .unknown _, _ => false
  | _, _ => true

end Operator

-- ================================================================== filters

namespace Filter

/-- The test of a field with what the filter holds for it: a value to be equal
to, or operators, all of which have to hold. -/
def fieldMeets (e : Element) (key v : Value) : Bool :=
  match v with
  | .map ops => ops.all fun o =>
    match o.1.text?.bind Operator.ofName? with
    | some op => e.has key fun own => op.holds own o.2
    | none => false
  | v => e.has key fun own => own.equal v

/-- Which of its two readings an entry has, by its key: filters that are
joined, or a field. -/
def entryMeets (key : Value) (joined : Junction → Bool) (field : Bool) :
    Bool :=
  if key.text? = some "and" then joined .all
  else if key.text? = some "or" then joined .any
  else if isIndex key then joined .all
  else field

section

variable (resolve : Value → Value) (e : Element)

mutual

/-- The element meets the filter. A row of filters may ask for all of its
filters or for some, and asks for nothing if it is empty; anything else is one
filter, however it is joined. -/
def meets : Junction → Value → Bool
  | .all, .list ws | .all, .tuple ws => allMeet ws
  | .any, .list ws | .any, .tuple ws => ws.isEmpty || someMeets ws
  | _, .map entries => entriesMeet entries
  | _, _ => true
termination_by structural _ w => w

/-- Whether an element meets all filters of a row. -/
def allMeet : List Value → Bool
  | [] => true
  | w :: ws => meets .all w && allMeet ws
termination_by structural ws => ws

/-- Whether it meets some filter of a row. -/
def someMeets : List Value → Bool
  | [] => false
  | w :: ws => meets .all w || someMeets ws
termination_by structural ws => ws

/-- The entries of a mapping are siblings: the element meets every one. -/
def entriesMeet : List (Value × Value) → Bool
  | [] => true
  | (key, v) :: es =>
    entryMeets key (fun junction => meets junction v)
      (fieldMeets e (resolve key) v) && entriesMeet es
termination_by structural es => es

end

end

end Filter

-- =============================================================== conditions

namespace Condition

section

variable (e : Element)

mutual

/-- The condition lets the element through. -/
def admits : Condition → Bool
  | .compare field op operand _ => e.has field fun own => op.holds own operand
  | .join .all groups => eachAdmits groups
  | .join .any groups => groups.isEmpty || someAdmits groups
termination_by structural c => c

/-- Whether all of these conditions let an element through. -/
def allAdmit : List Condition → Bool
  | [] => true
  | c :: cs => admits c && allAdmit cs
termination_by structural cs => cs

/-- Each group does, that is all of its conditions. -/
def eachAdmits : List (List Condition) → Bool
  | [] => true
  | g :: gs => allAdmit g && eachAdmits gs
termination_by structural gs => gs

/-- Whether those of some group do. -/
def someAdmits : List (List Condition) → Bool
  | [] => false
  | g :: gs => allAdmit g || someAdmits gs
termination_by structural gs => gs

end

end

section

variable (p : Value → Operator → Value → Bool → Bool)

mutual

/-- Every comparison in the condition is of a kind. -/
def every : Condition → Bool
  | .compare field op operand implicit => p field op operand implicit
  | .join _ groups => everyGrouped groups
termination_by structural c => c

/-- Whether a test holds of the keys of all these conditions. -/
def everyOf : List Condition → Bool
  | [] => true
  | c :: cs => every c && everyOf cs
termination_by structural cs => cs

/-- Whether it holds of the keys of all groups. -/
def everyGrouped : List (List Condition) → Bool
  | [] => true
  | g :: gs => everyOf g && everyGrouped gs
termination_by structural gs => gs

end

end

/-- A comparison that can be put to a graph: a scalar stands for equality, and
an operator has an operand that it takes. What is compared is stored under
something that is fine for that. -/
def isFormed (fine : Value → Bool) (field : Value) (op : Operator)
    (operand : Value) (implicit : Bool) : Bool :=
  fine field &&
    if implicit then op == .eq && operand.isScalar else op.takes operand

variable {e : Element} {p : Value → Operator → Value → Bool → Bool}

/-- Conditions behind each other let through what both let through. -/
private theorem allAdmit_append (cs ds : List Condition) :
    allAdmit e (cs ++ ds) = (allAdmit e cs && allAdmit e ds) := by
  induction cs with
  | nil => rfl
  | cons c cs ih =>
      rw [List.cons_append, allAdmit, ih, allAdmit, Bool.and_assoc]

/-- A test holds of all of them if it does of both parts. -/
theorem everyOf_append (cs ds : List Condition) :
    everyOf p (cs ++ ds) = (everyOf p cs && everyOf p ds) := by
  induction cs with
  | nil => rfl
  | cons c cs ih => rw [List.cons_append, everyOf, ih, everyOf, Bool.and_assoc]

/-- Groups of which each lets an element through do so together. -/
private theorem allAdmit_flatten (gs : List (List Condition)) :
    allAdmit e gs.flatten = eachAdmits e gs := by
  induction gs with
  | nil => rfl
  | cons g gs ih => rw [List.flatten_cons, allAdmit_append, ih, eachAdmits]

/-- It makes no difference whether groups are taken together first. -/
theorem everyOf_flatten (gs : List (List Condition)) :
    everyOf p gs.flatten = everyGrouped p gs := by
  induction gs with
  | nil => rfl
  | cons g gs ih => rw [List.flatten_cons, everyOf_append, ih, everyGrouped]

end Condition

namespace Filter

open Condition

/-- The conditions are formed, and let through what the property holds of. -/
structure Means (fine : Value → Bool) (cs : List Condition)
    (p : Element → Bool) : Prop where
  formed : everyOf (isFormed fine) cs = true
  agrees : ∀ e, allAdmit e cs = p e

/-- So do groups of conditions, however they are joined. -/
structure GroupsMean (fine : Value → Bool) (gs : List (List Condition))
    (p : Junction → Element → Bool) :
    Prop where
  formed : everyGrouped (isFormed fine) gs = true
  agrees : ∀ junction e, (Condition.join junction gs).admits e = p junction e

variable {fine : Value → Bool} {cs ds : List Condition}
  {gs : List (List Condition)}

/-- The meaning of conditions is told by what it says of every element. -/
theorem Means.congr {p q : Element → Bool} (h : Means fine cs p)
    (hpq : ∀ e, p e = q e) :
    Means fine cs q :=
  ⟨h.formed, fun e => (h.agrees e).trans (hpq e)⟩

/-- So is that of groups, whichever way they will be joined. -/
theorem GroupsMean.congr {p q : Junction → Element → Bool}
    (h : GroupsMean fine gs p)
    (hpq : ∀ junction e, p junction e = q junction e) : GroupsMean fine gs q :=
  ⟨h.formed, fun junction e => (h.agrees junction e).trans (hpq junction e)⟩

/-- No conditions mean everything. -/
private theorem means_nil : Means fine [] fun _ => true := ⟨rfl, fun _ => rfl⟩

/-- Conditions behind each other mean both. -/
theorem Means.append {p q : Element → Bool} (hp : Means fine cs p)
    (hq : Means fine ds q) :
    Means fine (cs ++ ds) fun e => p e && q e := by
  refine ⟨?_, fun e => ?_⟩
  · rw [everyOf_append, hp.formed, hq.formed]
    rfl
  · rw [allAdmit_append, hp.agrees, hq.agrees]

/-- Joined groups are one condition. -/
theorem GroupsMean.join {p : Junction → Element → Bool}
    (h : GroupsMean fine gs p) (junction : Junction) :
    Means fine [.join junction gs] (p junction) := by
  refine ⟨?_, fun e => ?_⟩
  · rw [everyOf, every, h.formed]
    rfl
  · rw [allAdmit, h.agrees, allAdmit, Bool.and_true]

/-- Groups that are not joined are siblings. -/
theorem GroupsMean.flatten {p : Junction → Element → Bool}
    (h : GroupsMean fine gs p) :
    Means fine gs.flatten (p .all) := by
  refine ⟨?_, fun e => ?_⟩
  · rw [everyOf_flatten, h.formed]
  · rw [allAdmit_flatten, ← h.agrees, admits]

/-- A single group is met or not, however it is joined. -/
theorem Means.groups {p : Element → Bool} (h : Means fine cs p) :
    GroupsMean fine [cs] fun _ e => p e := by
  refine ⟨?_, fun junction e => ?_⟩
  · rw [everyGrouped, h.formed]
    rfl
  · cases junction with
    | all => rw [admits, eachAdmits, eachAdmits, h.agrees, Bool.and_true]
    | any => simp [admits, someAdmits, h.agrees]

/-- The groups of a row, of which it must be known whether there are any: with
none there is no constraint. -/
structure RowMeans (fine : Value → Bool) (gs : List (List Condition))
    (none : Bool) (each some : Element → Bool) : Prop where
  formed : everyGrouped (isFormed fine) gs = true
  empty : gs.isEmpty = none
  each : ∀ e, eachAdmits e gs = each e
  some : ∀ e, someAdmits e gs = some e

/-- One more group at the head of a row has to be met with the others, or
instead of them. -/
theorem Means.cons {p each some : Element → Bool} {none : Bool}
    (h : Means fine cs p) (hgs : RowMeans fine gs none each some) :
    RowMeans fine (cs :: gs) false (fun e => p e && each e) fun e => p e ||
      some e := by
  refine ⟨?_, rfl, fun e => ?_, fun e => ?_⟩
  · rw [everyGrouped, h.formed, hgs.formed]
    rfl
  · rw [eachAdmits, h.agrees, hgs.each]
  · rw [someAdmits, h.agrees, hgs.some]

/-- A row means what its groups mean, joined one way or the other. -/
theorem RowMeans.groups {each some : Element → Bool} {none : Bool}
    (h : RowMeans fine gs none each some) :
    GroupsMean fine gs fun junction e =>
      match junction with
      | .all => each e
      | .any => none || some e := by
  refine ⟨h.formed, fun junction e => ?_⟩
  cases junction with
  | all => rw [admits, h.each]
  | any => rw [admits, h.empty, h.some]

-- ================================================================== fields

/-- An operator that has a name is a known one. -/
private theorem ofName?_ne_unknown {s : String} {op : Operator}
    (h : Operator.ofName? s = some op) (name : String) :
    op ≠ .unknown name := by
  unfold Operator.ofName? at h
  obtain ⟨entry, hentry, rfl⟩ := Option.map_eq_some_iff.mp h
  have hknown : ∀ entry ∈ Operator.known, entry.1 ≠ .unknown name := by
    simp [Operator.known]
  exact hknown entry (List.mem_of_find?_eq_some hentry)

/-- An operand is taken in another form, and compared with all the same. -/
private theorem operandOf_holds {op : Operator} {v x : Value}
    (h : operandOf op v = .ok x) (hop : ∀ name, op ≠ .unknown name) :
    op.takes x = true ∧ ∀ own, op.holds own x = op.holds own v := by
  -- only a range changes its operand; a choice keeps the value it was given
  unfold operandOf at h
  split at h
  · split at h
    · next low high hpair =>
      rw [← Except.ok.inj h]
      refine ⟨rfl, fun own => ?_⟩
      simp only [Operator.holds, hpair]
      rfl
    · cases h
  · split at h
    · rw [← Except.ok.inj h]
      exact ⟨rfl, fun _ => rfl⟩
    · rw [← Except.ok.inj h]
      exact ⟨rfl, fun _ => rfl⟩
    · rw [← Except.ok.inj h]
      exact ⟨rfl, fun _ => rfl⟩
    · cases h
  · split at h
    · rw [← Except.ok.inj h]
      exact ⟨rfl, fun _ => rfl⟩
    · rw [← Except.ok.inj h]
      exact ⟨rfl, fun _ => rfl⟩
    · rw [← Except.ok.inj h]
      exact ⟨rfl, fun _ => rfl⟩
    · cases h
  · next hbetween hinq hnin =>
    rw [← Except.ok.inj h]
    refine ⟨?_, fun _ => rfl⟩
    cases op
    case between => exact absurd rfl hbetween
    case inq => exact absurd rfl hinq
    case nin => exact absurd rfl hnin
    case unknown name => exact absurd rfl (hop name)
    all_goals rfl

/-- A comparison means that the field is there and compares so. -/
private theorem parseOperator_means {field key v : Value} {c : Condition}
    (hfield : fine field = true) (h : parseOperator field key v = .ok c) :
    Means fine [c] fun e =>
      match key.text?.bind Operator.ofName? with
      | some op => e.has field fun own => op.holds own v
      | none => false := by
  unfold parseOperator at h
  split at h
  · cases h
  · split at h
    · obtain ⟨shown, -, h⟩ := bind_eq_ok h
      cases h
    · obtain ⟨shown, -, h⟩ := bind_eq_ok h
      cases h
    · next op hop _ =>
      obtain ⟨operand, hoperand, hc⟩ := bind_eq_ok h
      obtain ⟨s, -, hs⟩ := Option.bind_eq_some_iff.mp hop
      obtain ⟨htakes, hholds⟩ :=
        operandOf_holds hoperand (ofName?_ne_unknown hs)
      rw [← Except.ok.inj hc]
      refine ⟨?_, fun e => ?_⟩
      · rw [everyOf, every, everyOf, isFormed, hfield, htakes]
        rfl
      · simp only [allAdmit, admits, hop, hholds, Bool.and_true]

/-- Comparisons of one field mean that it passes each of them. -/
private theorem parseOperators_mean {field : Value}
    (hfield : fine field = true) : ∀ (ops : Entries) {cs : List Condition},
      parseOperators field ops = .ok cs →
      Means fine cs fun e => fieldMeets e field (.map ops)
  | [], cs, h => by
      rw [← Except.ok.inj h]
      exact means_nil
  | (key, v) :: ops, cs, h => by
      unfold parseOperators at h
      rw [List.mapM_cons] at h
      obtain ⟨c, hc, h⟩ := bind_eq_ok h
      obtain ⟨rest, hrest, h⟩ := bind_eq_ok h
      rw [← Except.ok.inj h]
      exact (parseOperator_means hfield hc).append
        (parseOperators_mean hfield ops hrest)

/-- An entry means that its field passes the test. -/
private theorem parseField_means {resolve : Value → Value} {key v : Value}
    (hfield : fine (resolve key) = true)
    (h : parseField resolve key v = .ok cs) :
    Means fine cs fun e => fieldMeets e (resolve key) v := by
  unfold parseField at h
  split at h
  · exact parseOperators_mean hfield _ h
  · next hmap =>
    split at h
    · next hscalar =>
      rw [← Except.ok.inj h]
      refine ⟨?_, fun e => ?_⟩
      · rw [everyOf, every, everyOf, isFormed, hfield, hscalar]
        rfl
      · rw [allAdmit, admits, allAdmit, Bool.and_true, fieldMeets]
        · rfl
        · exact hmap
    · obtain ⟨shown, -, h⟩ := bind_eq_ok h
      cases h

-- ================================================================== entries

/-- What a role tells of the key; keys of the other roles are accepted
nowhere. -/
def RoleFits (key : Value) : KeyRole → Prop
  | .join .all => key.text? = some "and"
  | .join .any => key.text? = some "or"
  | .index =>
      key.text? ≠ some "and" ∧ key.text? ≠ some "or" ∧ isIndex key = true
  | .field =>
      key.text? ≠ some "and" ∧ key.text? ≠ some "or" ∧ isIndex key = false
  | .refused _ | .operator _ => True

/-- The role of a key says what the parser takes the key for. -/
private theorem roleOf_fits (key : Value) : RoleFits key (roleOf key) := by
  unfold roleOf
  cases htext : key.text? with
  | none =>
      cases hindex : isIndex key with
      | true => exact ⟨by simp [htext], by simp [htext], hindex⟩
      | false => exact ⟨by simp [htext], by simp [htext], hindex⟩
  | some s =>
      dsimp only
      by_cases hand : s = "and"
      · rw [if_pos hand]
        exact htext.trans (congrArg some hand)
      · rw [if_neg hand]
        by_cases hor : s = "or"
        · rw [if_pos hor]
          exact htext.trans (congrArg some hor)
        · rw [if_neg hor]
          have hand' : key.text? ≠ some "and" := by simpa [htext] using hand
          have hor' : key.text? ≠ some "or" := by simpa [htext] using hor
          split
          · trivial
          · split
            · trivial
            · cases hindex : isIndex key with
              | true => exact ⟨hand', hor', hindex⟩
              | false => exact ⟨hand', hor', hindex⟩

/-- A filter reads its keys as the parser does. -/
private theorem entryMeets_roleOf {key : Value} {role : KeyRole}
    (h : roleOf key = role) (joined : Junction → Bool) (field : Bool) :
    match role with
    | .join junction => entryMeets key joined field = joined junction
    | .index => entryMeets key joined field = joined .all
    | .field => entryMeets key joined field = field
    | .refused _ | .operator _ => True := by
  have hfits := roleOf_fits key
  rw [h] at hfits
  unfold entryMeets
  cases role with
  | join junction =>
      cases junction with
      | all => exact if_pos hfits
      | any =>
          have hand : key.text? ≠ some "and" := by
            simp [show key.text? = some "or" from hfits]
          exact (if_neg hand).trans (if_pos hfits)
  | index =>
      obtain ⟨hand, hor, hindex⟩ := hfits
      exact (if_neg hand).trans ((if_neg hor).trans (if_pos hindex))
  | field =>
      obtain ⟨hand, hor, hindex⟩ := hfits
      have hnone : ¬isIndex key = true := by simp [hindex]
      exact (if_neg hand).trans ((if_neg hor).trans (if_neg hnone))
  | refused shown => trivial
  | operator name => trivial

-- ============================================================== whole filters

/-- What can be a key is stored under something that is fine. -/
def ResolvesKeys (fine : Value → Bool) (resolve : Value → Value) : Prop :=
  ∀ key, key.isKey = true → fine (resolve key) = true

variable {resolve : Value → Value}

mutual

/-- The groups of a filter say what it says, of all of its rows and of some. -/
theorem groups_mean (hresolve : ResolvesKeys fine resolve) :
    ∀ (w : Value), w.isProper = true → ∀ {gs : List (List Condition)},
      groups resolve w = .ok gs →
      GroupsMean fine gs fun junction e => meets resolve e junction w
  | .null, _, gs, h => by
      rw [← Except.ok.inj h]
      refine means_nil.groups.congr fun junction e => ?_
      cases junction <;> rfl
  | .list ws, hw, gs, h => by
      have hws : Value.areProper ws = true := by
        simpa [Value.isProper] using hw
      -- a row means what its filters mean together
      refine (rowGroups_mean hresolve ws hws h).groups.congr
        fun junction e => ?_
      cases junction <;> rfl
  | .tuple ws, hw, gs, h => by
      have hws : Value.areProper ws = true := by
        simpa [Value.isProper] using hw
      refine (rowGroups_mean hresolve ws hws h).groups.congr
        fun junction e => ?_
      cases junction <;> rfl
  | .map entries, hw, gs, h => by
      have hentries : Value.haveProperKeys entries = true := by
        simpa [Value.isProper] using hw
      obtain ⟨cs, hcs, h⟩ := bind_eq_ok h
      rw [← Except.ok.inj h]
      refine (entryConditions_mean hresolve entries hentries hcs).groups.congr
        fun junction e => ?_
      cases junction <;> rfl
  | .bool _, _, _, h | .int _, _, _, h | .float _, _, _, h | .text _, _, _, h
  | .bytes _, _, _, h | .date _, _, _, h | .dateTime _, _, _, h
  | .set _, _, _, h | .symbol _, _, _, h | .datatype _, _, _, h
  | .vertex _ _, _, _, h | .edge .., _, _, h | .vertexProperty .., _, _, h
  | .property .., _, _, h | .path _, _, _, h | .traverser _, _, _, h
  | .predicate .., _, _, h | .traversal _, _, _, h | .foreign _ _, _, _, h =>
      nomatch h

/-- Each filter of a row is a group. -/
theorem rowGroups_mean (hresolve : ResolvesKeys fine resolve) :
    ∀ (ws : List Value), Value.areProper ws = true →
      ∀ {gs : List (List Condition)}, rowGroups resolve ws = .ok gs →
      RowMeans fine gs ws.isEmpty (fun e => allMeet resolve e ws) fun e =>
        someMeets resolve e ws
  | [], _, gs, h => by
      rw [← Except.ok.inj h]
      exact ⟨rfl, rfl, fun _ => rfl, fun _ => rfl⟩
  | w :: ws, hws, gs, h => by
      simp only [Value.areProper, Bool.and_eq_true] at hws
      obtain ⟨own, hown, h⟩ := bind_eq_ok h
      obtain ⟨rest, hrest, h⟩ := bind_eq_ok h
      rw [← Except.ok.inj h]
      have hw := groups_mean hresolve w hws.1 hown
      exact hw.flatten.cons (rowGroups_mean hresolve ws hws.2 hrest)

/-- The conditions of a mapping are those of its entries. -/
theorem entryConditions_mean (hresolve : ResolvesKeys fine resolve) :
    ∀ (es : List (Value × Value)), Value.haveProperKeys es = true →
    ∀ {cs : List Condition}, entryConditions resolve es = .ok cs →
      Means fine cs fun e => entriesMeet resolve e es
  | [], _, cs, h => by
      rw [← Except.ok.inj h]
      exact means_nil
  | (key, v) :: es, hes, cs, h => by
      simp only [Value.haveProperKeys, Bool.and_eq_true] at hes
      obtain ⟨⟨⟨hkey, -⟩, hv⟩, hes⟩ := hes
      -- whatever the entry itself means, the rest is appended to it
      have hgo : ∀ {own : List Condition}, Means fine own (fun e =>
          entryMeets key (fun junction => meets resolve e junction v)
            (fieldMeets e (resolve key) v)) →
          (do let rest ← entryConditions resolve es
              .ok (own ++ rest)) = Except.ok cs →
            Means fine cs fun e => entriesMeet resolve e ((key, v) :: es) := by
        intro own hown hgo
        obtain ⟨rest, hrest, hcs⟩ := bind_eq_ok hgo
        rw [← Except.ok.inj hcs]
        exact hown.append (entryConditions_mean hresolve es hes hrest)
      rw [entryConditions] at h
      cases hrole : roleOf key with
      | join junction =>
          rw [hrole] at h
          obtain ⟨gs, hgs, h⟩ := bind_eq_ok h
          have hjoin := (groups_mean hresolve v hv hgs).join junction
          refine hgo (hjoin.congr fun e => ?_) h
          exact (entryMeets_roleOf hrole
            (fun junction => meets resolve e junction v) _).symm
      | refused shown => rw [hrole] at h; cases h
      | operator name => rw [hrole] at h; cases h
      | index =>
          rw [hrole] at h
          obtain ⟨gs, hgs, h⟩ := bind_eq_ok h
          have hflat := (groups_mean hresolve v hv hgs).flatten
          refine hgo (hflat.congr fun e => ?_) h
          exact (entryMeets_roleOf hrole
            (fun junction => meets resolve e junction v) _).symm
      | field =>
          rw [hrole] at h
          obtain ⟨own, hown, h⟩ := bind_eq_ok h
          have hfield := parseField_means (hresolve key hkey) hown
          exact hgo (hfield.congr fun e => (entryMeets_roleOf hrole _ _).symm)
            h

end

/-- The conditions of a filter let through the elements that meet it. -/
theorem parse_means {w : Value} (hresolve : ResolvesKeys fine resolve)
    (hw : w.isProper = true) (h : parse resolve w = .ok cs) :
    Means fine cs fun e => meets resolve e .all w := by
  unfold parse at h
  cases hgs : groups resolve w with
  | error e => rw [hgs] at h; cases h
  | ok gs =>
      rw [hgs] at h
      rw [← Except.ok.inj h]
      exact (groups_mean hresolve w hw hgs).flatten

end Filter

end GraphMapper

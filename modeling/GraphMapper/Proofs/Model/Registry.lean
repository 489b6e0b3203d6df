/-
The type table of a model is never stale.

A table is kept from its derivation on, so what has to be shown is that it goes
when its model does. After any calls the registry is settled (`Settled`): each
model stands under its own name, and a table that is kept under a name has the
types of the model that stands there. Every call keeps this, since only a
registration changes a model, and it drops the table under the very name
(`settled_perform`).

What stands under a name is told by the calls alone: the model that was last
registered under it (`Calls.latest`), however often the name has been given to
others before, and whatever has been refused (`find?_runCalls`). A table stays
the one that it is until there is such a registration (`table_runCalls`), and
then it is never given out again.

# What would be stale

Two things could go wrong with a cache: an answer that belongs to another
definition, and an answer that is computed again although it need not be.
Tables carry the number of their derivation, so that both can be stated: an
answer has the types of the fields of the latest definition, and two answers
are the same table just if nothing was registered under the name between them.

Main statement: `never_stale`.

Chain: `Model.Registry` alone, besides what holds of lists.
-/
import GraphMapper.Model.Registry
import Mathlib.Data.List.Induction
import Mathlib.Tactic.Push

namespace GraphMapper

namespace Registry

/-- What can be asked of a registry. A model is registered by its definition,
which may be none, or as it is. -/
inductive Call where
  | define (definition : Value)
  | register (m : Model)
  | get (name : Option String)
  | contains (name : Option String)
  | deriveTypes (name : Option String)

/-- What a call answers: a table that is given out, or that there is none. -/
inductive Answer where
  | model (m : Model)
  | truth (b : Bool)
  | table (t : TypeTable)

namespace Call

/-- The answer to a call, with the registry afterwards. -/
def perform (call : Call) (r : Registry) : Checked Answer × Registry :=
  match call with
  | .define definition =>
    match r.registerDefinition definition with
    | .ok (r', m) => (.ok (.model m), r')
    | .error e => (.error e, r)
  | .register m => (.ok (.model m), r.register m)
  | .get name => ((r.get name).map .model, r)
  | .contains name => (.ok (.truth (r.contains name)), r)
  | .deriveTypes name =>
    match r.deriveTypes name with
    | .ok (r', t) => (.ok (.table t), r')
    | .error e => (.error e, r)

/-- The model that a call registers, if it registers one. -/
def registers : Call → Option Model
  | .define definition => (Model.ofDefinition definition).toOption
  | .register m => some m
  | _ => none

/-- The call registers a model under the name. -/
def Renews (call : Call) (name : String) : Prop :=
  ∃ m, call.registers = some m ∧ m.name = name

end Call

/-- The registry after some calls. -/
def runCalls (r : Registry) (calls : List Call) : Registry :=
  calls.foldl (fun r call => (call.perform r).2) r

/-- The model that was last registered under a name. -/
def latest (name : String) (calls : List Call) : Option Model :=
  (calls.filterMap Call.registers).reverse.find? fun m => m.name == name

/-- Each model stands under its name, and each table that is kept has the types
of the model under its name. Tables are numbered in the order of their
derivation. -/
structure Settled (r : Registry) : Prop where
  named : ∀ name m, r.find? name = some m → m.name = name
  kept : ∀ name t, r.tables.lookup name = some t → ∃ m,
    r.find? name = some m ∧ t.types = m.types
  numbered : ∀ name t, r.tables.lookup name = some t → t.number < r.derivations

variable {r : Registry} {m : Model} {call : Call} {name : String}
  {t : TypeTable}

/-- The registry with a new table for what stands under a name. -/
def withTable (r : Registry) (name : String)
    (types : List (Value × FieldType)) : Registry :=
  { r with
    tables := (name, ⟨r.derivations, types⟩) :: r.tables
    derivations := r.derivations + 1 }

-- ============================================================== looking up

/-- What is put before a table is found first. -/
private theorem lookup_behind {β : Type} (name key : String) (v : β)
    (es : List (String × β)) :
    ((key, v) :: es).lookup name = if name = key then some v
      else es.lookup name := by
  rw [List.lookup_cons]
  by_cases hname : name = key
  · rw [if_pos hname, beq_iff_eq.mpr hname]
  · rw [if_neg hname, beq_false_of_ne hname]

/-- A name that has been dropped is not found; others are. -/
private theorem lookup_without {β : Type} (gone name : String)
    (es : List (String × β)) :
    (es.filter fun e => e.1 != gone).lookup name = if name = gone then none
      else es.lookup name := by
  induction es with
  | nil => simp
  | cons e es ih =>
      obtain ⟨key, v⟩ := e
      by_cases hkey : key = gone
      · rw [List.filter_cons_of_neg (by simp [hkey]), ih]
        by_cases hname : name = gone
        · rw [if_pos hname, if_pos hname]
        · rw [if_neg hname, if_neg hname, lookup_behind, if_neg (hkey ▸ hname)]
      · rw [List.filter_cons_of_pos (by simpa using hkey), lookup_behind,
          lookup_behind, ih]
        by_cases hname : name = key
        · rw [if_pos hname, if_pos hname, if_neg (hname ▸ hkey)]
        · rw [if_neg hname, if_neg hname]

/-- A model that is registered stands under its own name. -/
private theorem find?_register (r : Registry) (m : Model) (name : String) :
    (r.register m).find? name = if name = m.name then some m
      else r.find? name := by
  show ((m.name, m) :: r.models.filter fun e => e.1 != m.name).lookup name = _
  rw [lookup_behind, lookup_without]
  by_cases hname : name = m.name
  · rw [if_pos hname, if_pos hname]
  · rw [if_neg hname, if_neg hname, if_neg hname]
    rfl

/-- And the table under that name is dropped. -/
private theorem table_register (r : Registry) (m : Model) (name : String) :
    (r.register m).tables.lookup name = if name = m.name then none
      else r.tables.lookup name :=
  lookup_without m.name name r.tables

/-- A table that is kept is found, with the number of its derivation. -/
private theorem table_withTable (r : Registry) (key : String)
    (types : List (Value × FieldType)) (name : String) :
    (r.withTable key types).tables.lookup name
      = if name = key then some ⟨r.derivations, types⟩
        else r.tables.lookup name :=
  lookup_behind name key _ r.tables

/-- A model that stands under a name is the one that is got. -/
private theorem get_of_find? (h : r.find? name = some m) :
    r.get (some name) = .ok m := by
  unfold get
  rw [Option.bind_some, h]

/-- There is a model, or the failure names what was asked for. -/
private theorem get_of_none {name : Option String}
    (h : name.bind r.find? = none) :
    ∃ e, r.get name = .error e ∧ ∀ r' : Registry, name.bind r'.find? = none →
      r'.get name = .error e := by
  cases name with
  | none => exact ⟨_, rfl, fun _ _ => rfl⟩
  | some s =>
      have hget : ∀ r' : Registry, (some s).bind r'.find? = none →
          r'.get (some s)
            = .error (.validation ("Unknown model '" ++ s ++ "'")
              [(.text "model", .text s)]) := by
        intro r' hnone
        unfold get
        rw [hnone]
        rfl
      exact ⟨_, hget r h, hget⟩

-- =================================================================== calls

/-- The table that is given out: the one that is kept, or a new one that is
kept from now on. -/
private theorem deriveTypes_of_find? (hr : r.Settled)
    (h : r.find? name = some m) : (∃ t, r.tables.lookup name = some t ∧
      r.deriveTypes (some name) = .ok (r, t)) ∨
    r.tables.lookup name = none ∧ r.deriveTypes (some name)
      = .ok (r.withTable name m.types, ⟨r.derivations, m.types⟩) := by
  unfold deriveTypes
  rw [Option.bind_some]
  cases hkept : r.tables.lookup name with
  | some t => exact .inl ⟨t, rfl, rfl⟩
  | none =>
      refine .inr ⟨rfl, ?_⟩
      rw [get_of_find? h]
      show Except.ok (r.withTable m.name m.types, _) = _
      rw [hr.named name m h]

/-- Where no model stands, none is got and no types are derived, for the same
reason. -/
private theorem deriveTypes_of_none (hr : r.Settled) {name : Option String}
    (h : name.bind r.find? = none) :
    ∃ e, r.get name = .error e ∧ r.deriveTypes name = .error e := by
  obtain ⟨e, he, -⟩ := get_of_none h
  refine ⟨e, he, ?_⟩
  have hkept : (name.bind fun s => r.tables.lookup s) = none := by
    cases name with
    | none => rfl
    | some s =>
        refine Option.eq_none_iff_forall_ne_some.mpr fun t ht => ?_
        obtain ⟨m, hm, -⟩ := hr.kept s t ht
        rw [Option.bind_some, hm] at h
        cases h
  unfold deriveTypes
  rw [hkept, he]
  rfl

/-- A call registers a model, derives a table that was not there, or leaves the
registry as it is. -/
private theorem perform_cases (hr : r.Settled) (call : Call) :
    (∃ m, call.registers = some m ∧ call.perform r = (.ok (.model m),
      r.register m)) ∨
    (call.registers = none ∧ ∃ name m, r.find? name = some m ∧
      r.tables.lookup name = none ∧
      (call.perform r).2 = r.withTable name m.types) ∨
    call.registers = none ∧ (call.perform r).2 = r := by
  -- a definition may be refused, and types are derived once per model
  cases call with
  | define definition =>
      cases hm : Model.ofDefinition definition with
      | error e =>
          refine .inr (.inr ⟨?_, ?_⟩)
          · simp only [Call.registers, hm]
            rfl
          · simp only [Call.perform, registerDefinition, hm]
            rfl
      | ok m =>
          refine .inl ⟨m, ?_, ?_⟩
          · simp only [Call.registers, hm]
            rfl
          · simp only [Call.perform, registerDefinition, hm]
            rfl
  | register m => exact .inl ⟨m, rfl, rfl⟩
  | get name => exact .inr (.inr ⟨rfl, rfl⟩)
  | contains name => exact .inr (.inr ⟨rfl, rfl⟩)
  | deriveTypes name =>
      cases hm : name.bind r.find? with
      | none =>
          obtain ⟨e, -, he⟩ := deriveTypes_of_none hr hm
          refine .inr (.inr ⟨rfl, ?_⟩)
          simp only [Call.perform, he]
      | some m =>
          obtain ⟨s, rfl, hs⟩ := Option.bind_eq_some_iff.mp hm
          rcases deriveTypes_of_find? hr hs with ⟨t, -, hgo⟩ | ⟨hnone, hgo⟩
          · refine .inr (.inr ⟨rfl, ?_⟩)
            simp only [Call.perform, hgo]
          · refine .inr (.inl ⟨rfl, s, m, hs, hnone, ?_⟩)
            simp only [Call.perform, hgo]

/-- A call that registers a model does nothing else. -/
private theorem perform_of_registers (hr : r.Settled)
    (hm : call.registers = some m) :
    call.perform r = (.ok (.model m), r.register m) := by
  rcases perform_cases hr call with ⟨m', hm', hgo⟩ | ⟨hnone, -⟩ | ⟨hnone, -⟩
  · obtain rfl : m = m' := Option.some.inj (hm.symm.trans hm')
    exact hgo
  · rw [hnone] at hm
    cases hm
  · rw [hnone] at hm
    cases hm

-- =============================================================== invariant

/-- A registry starts settled. -/
private theorem settled_empty : empty.Settled := by
  refine ⟨fun _ _ h => ?_, fun _ _ h => ?_, fun _ _ h => ?_⟩ <;> cases h

/-- A registration keeps it so, since it drops what was kept under the name. -/
theorem Settled.register (hr : r.Settled) (m : Model) :
    (r.register m).Settled := by
  refine ⟨fun name m' h => ?_, fun name t h => ?_, fun name t h => ?_⟩
  · rw [find?_register] at h
    split at h
    · next hname => rw [← Option.some.inj h, hname]
    · exact hr.named name m' h
  · rw [table_register] at h
    split at h
    · cases h
    · next hname =>
      rw [find?_register, if_neg hname]
      exact hr.kept name t h
  · rw [table_register] at h
    split at h
    · cases h
    · exact hr.numbered name t h

/-- So does a derivation, since it keeps the types of the model that stands
there. -/
private theorem Settled.derive (hr : r.Settled) (h : r.find? name = some m) :
    (r.withTable name m.types).Settled := by
  refine ⟨hr.named, fun other t ht => ?_, fun other t ht => ?_⟩
  · rw [table_withTable] at ht
    split at ht
    · next hother =>
      rw [← Option.some.inj ht, hother]
      exact ⟨m, h, rfl⟩
    · exact hr.kept other t ht
  · rw [table_withTable] at ht
    split at ht
    · rw [← Option.some.inj ht]
      exact Nat.lt_succ_self _
    · exact Nat.lt_succ_of_lt (hr.numbered other t ht)

/-- Every call leaves the registry settled. -/
theorem settled_perform (hr : r.Settled) (call : Call) :
    (call.perform r).2.Settled := by
  rcases perform_cases hr call with ⟨m, -, hgo⟩
    | ⟨-, name, m, hm, -, hgo⟩ | ⟨-, hgo⟩
  · rw [hgo]
    exact hr.register m
  · rw [hgo]
    exact hr.derive hm
  · rw [hgo]
    exact hr

/-- So do any calls. -/
private theorem settled_runCalls (hr : r.Settled) (calls : List Call) :
    (r.runCalls calls).Settled := by
  induction calls generalizing r with
  | nil => exact hr
  | cons call calls ih => exact ih (settled_perform hr call)

-- ============================================================= what stands

/-- A model stands under its name until another one is registered under it. -/
private theorem find?_perform (hr : r.Settled) (call : Call) (name : String) :
    (call.perform r).2.find? name
      = (call.registers.filter fun m => m.name == name).or (r.find? name) := by
  rcases perform_cases hr call with ⟨m, hm, hgo⟩ | ⟨hnone, s, m, -, -, hgo⟩
    | ⟨hnone, hgo⟩
  · rw [hgo, hm, find?_register, Option.filter_some]
    by_cases hname : name = m.name
    · rw [if_pos hname, if_pos (beq_iff_eq.mpr hname.symm)]
      rfl
    · rw [if_neg hname, if_neg (by simpa using Ne.symm hname)]
      rfl
  · rw [hgo, hnone]
    rfl
  · rw [hgo, hnone]
    rfl

/-- Under a name there is the model that was last registered under it. -/
theorem find?_runCalls (calls : List Call) (name : String) :
    (empty.runCalls calls).find? name = latest name calls := by
  induction calls using List.reverseRecOn with
  | nil => rfl
  | append_singleton calls call ih =>
      have hlatest : latest name (calls ++ [call])
          = (call.registers.filter fun m => m.name == name).or
            (latest name calls) := by
        unfold latest
        rw [List.filterMap_append, List.reverse_append, List.find?_append]
        cases hm : call.registers with
        | none => simp [hm]
        | some m =>
            rw [List.filterMap_cons_some hm, List.filterMap_nil,
              List.reverse_singleton, Option.filter_some, List.find?_singleton]
      rw [hlatest, ← ih,
        ← find?_perform (settled_runCalls settled_empty calls)]
      unfold runCalls
      rw [List.foldl_append]
      rfl

/-- What stands under a name that may not be given. -/
private theorem bind_find?_runCalls (calls : List Call)
    (name : Option String) : name.bind (empty.runCalls calls).find?
      = name.bind fun s => latest s calls := by
  cases name with
  | none => rfl
  | some s => exact find?_runCalls calls s

-- =========================================================== what is kept

/-- A table is kept until a model is registered under its name. -/
private theorem table_perform (hr : r.Settled)
    (ht : r.tables.lookup name = some t) (hrenews : ¬call.Renews name) :
    (call.perform r).2.tables.lookup name = some t := by
  rcases perform_cases hr call with ⟨m, hm, hgo⟩
    | ⟨-, s, m, -, hfree, hgo⟩ | ⟨-, hgo⟩
  · rw [hgo, table_register, if_neg fun hname => hrenews ⟨m, hm, hname.symm⟩,
      ht]
  · rw [hgo, table_withTable, if_neg, ht]
    rintro rfl
    rw [hfree] at ht
    cases ht
  · rw [hgo, ht]

/-- A table stays as it is through calls that do not renew it. -/
theorem table_runCalls (hr : r.Settled) (ht : r.tables.lookup name = some t)
    {calls : List Call} (hrenews : ∀ call ∈ calls, ¬call.Renews name) :
    (r.runCalls calls).tables.lookup name = some t := by
  induction calls generalizing r with
  | nil => exact ht
  | cons call calls ih =>
      exact ih (settled_perform hr call)
        (table_perform hr ht (hrenews call List.mem_cons_self)) fun c hc =>
          hrenews c (List.mem_cons_of_mem _ hc)

/-- What is derived is kept. -/
private theorem kept_of_deriveTypes (hr : r.Settled) {name : Option String}
    {r' : Registry} (h : r.deriveTypes name = .ok (r', t)) :
    ∃ s, name = some s ∧ r'.Settled ∧
      r'.tables.lookup s = some t := by
  cases hm : name.bind r.find? with
  | none =>
      obtain ⟨e, -, he⟩ := deriveTypes_of_none hr hm
      rw [he] at h
      cases h
  | some m =>
      obtain ⟨s, rfl, hs⟩ := Option.bind_eq_some_iff.mp hm
      rcases deriveTypes_of_find? hr hs with ⟨kept, hkept, hgo⟩ | ⟨-, hgo⟩
      · obtain ⟨rfl, rfl⟩ := Prod.mk.inj (Except.ok.inj (hgo.symm.trans h))
        exact ⟨s, rfl, hr, hkept⟩
      · obtain ⟨rfl, rfl⟩ := Prod.mk.inj (Except.ok.inj (hgo.symm.trans h))
        refine ⟨s, rfl, hr.derive hs, ?_⟩
        rw [table_withTable, if_pos rfl]

/-- A table that is kept is given out. -/
private theorem deriveTypes_of_kept {t' : TypeTable} {r' : Registry}
    (ht : r.tables.lookup name = some t)
    (h : r.deriveTypes (some name) = .ok (r', t')) :
    t' = t := by
  unfold deriveTypes at h
  rw [Option.bind_some, ht] at h
  exact (Prod.mk.inj (Except.ok.inj h)).2.symm

-- ============================================================ what has gone

/-- Derivations are counted up. -/
private theorem derivations_perform (hr : r.Settled) (call : Call) :
    r.derivations ≤ (call.perform r).2.derivations := by
  rcases perform_cases hr call with ⟨m, -, hgo⟩
    | ⟨-, s, m, -, -, hgo⟩ | ⟨-, hgo⟩
  · rw [hgo]
    exact Nat.le_refl _
  · rw [hgo]
    exact Nat.le_succ _
  · exact Nat.le_of_eq (by rw [hgo])

/-- No table is kept under the name that is as old as some number. -/
def Younger (r : Registry) (name : String) (number : Nat) : Prop :=
  number < r.derivations ∧ ∀ t, r.tables.lookup name = some t →
    number < t.number

/-- Once they are gone, tables that are that old do not come back. -/
theorem Younger.perform {number : Nat} (hr : r.Settled)
    (h : r.Younger name number) (call : Call) :
    (call.perform r).2.Younger name number := by
  rcases perform_cases hr call with ⟨m, -, hgo⟩
    | ⟨-, s, m, -, -, hgo⟩ | ⟨-, hgo⟩
  · rw [hgo]
    refine ⟨h.1, fun t ht => ?_⟩
    rw [table_register] at ht
    split at ht
    · cases ht
    · exact h.2 t ht
  · rw [hgo]
    refine ⟨Nat.lt_succ_of_lt h.1, fun t ht => ?_⟩
    rw [table_withTable] at ht
    split at ht
    · rw [← Option.some.inj ht]
      exact h.1
    · exact h.2 t ht
  · rw [hgo]
    exact h

/-- A registration under the name makes all tables old that there have been. -/
private theorem younger_of_renews (hr : r.Settled) (hrenews : call.Renews name)
    {number : Nat} (hnumber : number < r.derivations) :
    (call.perform r).2.Younger name number := by
  obtain ⟨m, hm, rfl⟩ := hrenews
  rw [perform_of_registers hr hm]
  refine ⟨hnumber, fun t ht => ?_⟩
  rw [table_register, if_pos rfl] at ht
  cases ht

/-- A table that is given out under a name is younger than those that have
gone. -/
theorem Younger.deriveTypes {number : Nat} {t' : TypeTable} {r' : Registry}
    (hr : r.Settled) (h : r.Younger name number)
    (hgo : r.deriveTypes (some name) = .ok (r', t')) :
    number < t'.number := by
  cases hm : r.find? name with
  | none =>
      have hnone : (some name).bind r.find? = none := hm
      obtain ⟨e, -, he⟩ := deriveTypes_of_none hr hnone
      rw [he] at hgo
      cases hgo
  | some m =>
      rcases deriveTypes_of_find? hr hm with ⟨kept, hkept, hkeeps⟩ | ⟨-, hnew⟩
      · rw [hkeeps] at hgo
        rw [← (Prod.mk.inj (Except.ok.inj hgo)).2]
        exact h.2 kept hkept
      · rw [hnew] at hgo
        rw [← (Prod.mk.inj (Except.ok.inj hgo)).2]
        exact h.1

/-- What has been derived later stays later through all calls. -/
theorem Younger.runCalls {number : Nat} (hr : r.Settled)
    (h : r.Younger name number) (calls : List Call) :
    (r.runCalls calls).Younger name number := by
  induction calls generalizing r with
  | nil => exact h
  | cons call calls ih =>
      exact ih (settled_perform hr call) (h.perform hr call)

/-- Once its model has been registered again, a table is not given out any
more. -/
private theorem younger_runCalls (hr : r.Settled) {number : Nat}
    (hnumber : number < r.derivations) {calls : List Call}
    (hrenews : ∃ call ∈ calls, call.Renews name) :
    (r.runCalls calls).Younger name number := by
  induction calls generalizing r with
  | nil =>
      obtain ⟨call, hcall, -⟩ := hrenews
      cases hcall
  | cons call calls ih =>
      have hr' := settled_perform hr call
      by_cases hnow : call.Renews name
      · exact (younger_of_renews hr hnow hnumber).runCalls hr' calls
      · obtain ⟨later, hmem, hlater⟩ := hrenews
        refine ih hr'
          (Nat.lt_of_lt_of_le hnumber (derivations_perform hr call))
            ⟨later, ?_, hlater⟩
        exact (List.mem_cons.mp hmem).resolve_left fun heq =>
          hnow (heq ▸ hlater)

-- ================================================================= no effect

/-- A call that is refused has no effect. -/
private theorem perform_of_error {e : Failure}
    (h : (call.perform r).1 = .error e) : (call.perform r).2 = r := by
  cases call with
  | define definition =>
      unfold Call.perform at h ⊢
      dsimp only at h ⊢
      split
      · next hgo =>
        rw [hgo] at h
        cases h
      · rfl
  | deriveTypes name =>
      unfold Call.perform at h ⊢
      dsimp only at h ⊢
      split
      · next hgo =>
        rw [hgo] at h
        cases h
      · rfl
  | register m => cases h
  | get name => rfl
  | contains name => rfl

/-- A registration is not noticed under another name. -/
private theorem register_other (r : Registry) {name : Option String}
    (hname : name ≠ some m.name) :
    (r.register m).get name = r.get name ∧
      (r.register m).contains name = r.contains name ∧
      ((r.register m).deriveTypes name).map Prod.snd
        = (r.deriveTypes name).map Prod.snd := by
  have hfind : name.bind (r.register m).find? = name.bind r.find? := by
    cases name with
    | none => rfl
    | some s =>
        exact (find?_register r m s).trans
          (if_neg fun hs => hname (congrArg some hs))
  have htable : (name.bind fun s => (r.register m).tables.lookup s)
      = name.bind fun s => r.tables.lookup s := by
    cases name with
    | none => rfl
    | some s =>
        exact (table_register r m s).trans
          (if_neg fun hs => hname (congrArg some hs))
  have hget : (r.register m).get name = r.get name := by
    unfold get
    rw [hfind]
  refine ⟨hget, ?_, ?_⟩
  · unfold contains
    rw [hfind]
  · unfold deriveTypes
    rw [htable, hget]
    cases name.bind fun s => r.tables.lookup s with
    | some t => rfl
    | none => cases r.get name <;> rfl

-- ==================================================================== main

/-- What stands under a name is found, and the types that are derived are
those of its fields, each under the name of its field. -/
private theorem answers_of_find? (hr : r.Settled) (h : r.find? name = some m) :
    r.get (some name) = .ok m ∧ r.contains (some name) = true ∧
      ∃ r' t, r.deriveTypes (some name) = .ok (r', t) ∧
        t.types = m.fields.map fun f => (f.name, f.type) := by
  refine ⟨get_of_find? h, ?_, ?_⟩
  · unfold contains
    rw [Option.bind_some, h]
    rfl
  · rcases deriveTypes_of_find? hr h with ⟨t, ht, hgo⟩ | ⟨-, hgo⟩
    · obtain ⟨m', hm', htypes⟩ := hr.kept name t ht
      obtain rfl : m = m' := Option.some.inj (h.symm.trans hm')
      exact ⟨r, t, hgo, htypes⟩
    · exact ⟨_, _, hgo, rfl⟩

/-- A table is given out again, after some calls, just when none of them
registers a model under its name. -/
private theorem deriveTypes_same_iff (hr : r.Settled) {name : Option String}
    {r₁ r₂ : Registry} {t₁ t₂ : TypeTable} {more : List Call}
    (hfirst : r.deriveTypes name = .ok (r₁, t₁))
    (hsecond : (r₁.runCalls more).deriveTypes name = .ok (r₂, t₂)) :
    t₂ = t₁ ↔ ∀ call ∈ more, ∀ s, name = some s → ¬call.Renews s := by
  obtain ⟨s, rfl, hr₁, hkept⟩ := kept_of_deriveTypes hr hfirst
  by_cases hrenews : ∃ call ∈ more, call.Renews s
  · refine iff_of_false (fun heq => ?_) fun hnone => ?_
    · have hyounger := younger_runCalls hr₁ (hr₁.numbered s t₁ hkept) hrenews
      have hlt := hyounger.deriveTypes (settled_runCalls hr₁ more) hsecond
      rw [heq] at hlt
      exact Nat.lt_irrefl _ hlt
    · obtain ⟨call, hcall, hyes⟩ := hrenews
      exact hnone call hcall s rfl hyes
  · push Not at hrenews
    refine iff_of_true ?_ fun call hcall s' hs' => ?_
    · exact deriveTypes_of_kept (table_runCalls hr₁ hkept hrenews) hsecond
    · rw [← Option.some.inj hs']
      exact hrenews call hcall

/-- Whatever has been asked of a registry, it has for each name the model that
was last registered under it, and derives the types of the fields of this
model, each under its name; what no model has been registered under is refused,
in the same way, by both. The types of a name are one and the same table until
a model is registered under that name, and from then on they are another one. A
call that is refused changes nothing, and a registration changes nothing for
any other name. -/
theorem never_stale (calls : List Call) (name : Option String) :
    let r := empty.runCalls calls
    (match name.bind fun s => latest s calls with
      | some m => r.get name = .ok m ∧ r.contains name = true ∧
          ∃ r' t, r.deriveTypes name = .ok (r', t) ∧
            t.types = m.fields.map fun f => (f.name, f.type)
      | none => r.contains name = false ∧
          ∃ e, r.get name = .error e ∧ r.deriveTypes name = .error e) ∧
    (∀ r₁ t₁ (more : List Call) r₂ t₂, r.deriveTypes name = .ok (r₁, t₁) →
      (r₁.runCalls more).deriveTypes name = .ok (r₂, t₂) →
        (t₂ = t₁ ↔ ∀ call ∈ more, ∀ s, name = some s → ¬call.Renews s)) ∧
    ∀ call : Call,
      (∀ e, (call.perform r).1 = .error e → (call.perform r).2 = r) ∧ ∀ m,
      call.registers = some m → (call.perform r).1 = .ok (.model m) ∧
      (name ≠ some m.name →
        (call.perform r).2.get name = r.get name ∧
          (call.perform r).2.contains name = r.contains name ∧
          ((call.perform r).2.deriveTypes name).map Prod.snd
            = (r.deriveTypes name).map Prod.snd) := by
  intro r
  -- the invariant of the run; each part is a fact of a settled registry
  have hr : r.Settled := settled_runCalls settled_empty calls
  refine ⟨?answers, fun _ _ _ _ _ hfirst hsecond =>
    deriveTypes_same_iff hr hfirst hsecond, fun call =>
      ⟨fun e he => perform_of_error he, fun m hm => ?others⟩⟩
  case answers =>
    rw [← bind_find?_runCalls calls name]
    cases hm : name.bind r.find? with
    | none =>
        refine ⟨?_, deriveTypes_of_none hr hm⟩
        unfold contains
        rw [hm]
        rfl
    | some m =>
        obtain ⟨s, rfl, hs⟩ := Option.bind_eq_some_iff.mp hm
        exact answers_of_find? hr hs
  case others =>
    rw [perform_of_registers hr hm]
    exact ⟨rfl, fun hname => register_other r hname⟩

end Registry

end GraphMapper

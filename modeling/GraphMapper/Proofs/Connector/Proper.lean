/-
What transactions hold is proper.

Models get into a connector by definitions only, at first or by a registration
(`sameRegistry_act`), so they stay proper as long as applications make the
definitions. What a call asks to be done is built from its arguments and a
model. So if calls are made with values that applications can make, every
traversal that a transaction holds is proper (`isProper_heldBy`).

Two things are followed through a run of calls: the models of the registry, and
the traversals that wait in transactions. Neither can be got at except by a
call, so one lemma for each kind of call is enough
(`isProper_registry_perform`, `isProper_heldAfter`), and the rest is an
induction over the calls.

Chain: `Connector.Pending` for what a transaction holds, `Query.Proper` for
what is built; `Connector.Runs` makes it one invariant with the graph.
-/
import GraphMapper.Proofs.Connector.Pending
import GraphMapper.Proofs.Model.Definition
import GraphMapper.Proofs.Query.Proper

namespace GraphMapper

open Value (stepsAreProper)

-- ================================================================== models

namespace Connector

/-- The models stay as they are. -/
def SameRegistry (c c' : Connector) : Prop := c'.registry = c.registry

private theorem frame_sameRegistry : Frame SameRegistry where
  refl _ := rfl
  trans h h' := h'.trans h
  note _ _ _ _ := rfl
  advance _ _ := rfl

end Connector

namespace Act

open Connector

private theorem sameRegistry_execute (model : Option String)
    (steps : List Step) (o : Options) (mode : Mode) :
    Keeps SameRegistry (execute model steps o mode) := by
  cases ho : o.joined with
  | none => exact fun c => (settled_execute ho model steps mode c).1
  | some tx =>
      intro c
      rw [execute_joined ho]
      cases c.transactions.store tx (some steps) <;> rfl

/-- Only a registration changes the models. -/
theorem sameRegistry_act {call : Call} (hcall : ∀ d, call ≠ .register d) :
    Keeps SameRegistry call.act := by
  cases hwork : call.work? with
  | some w =>
      refine keeps_work frame_sameRegistry hwork (fun model filter c => ?_)
          fun o _ model steps mode =>
        sameRegistry_execute model steps o mode
      exact (settled_count model filter c).1
  | none =>
      by_cases hbegin : ∃ timeout, call = .begin timeout
      · obtain ⟨timeout, rfl⟩ := hbegin
        exact fun c => rfl
      · exact fun c =>
          (settled_quiet hwork
            (fun timeout h => hbegin ⟨timeout, h⟩) hcall c).1

end Act

-- =================================================================== calls

/-- What the call has for a traversal or for a model is what an application can
make. -/
def Call.isProper : Call → Bool
  | .create _ record _ | .save _ record _ => record.isProper
  | .replaceById _ id record _ => id.isProper && record.isProper
  | .updateAll _ filter record _ => filter.isProper && record.isProper
  | .destroyAll _ filter _ => filter.isProper
  | .destroyById _ id _ => id.isProper
  | .execute steps _ _ | .engine _ steps _ _ => stepsAreProper steps
  | .register definition => definition.isProper
  | _ => true

/-- What a call asks for is built of proper steps. -/
private theorem Call.yields_steps {call : Call} {w : Work}
    (hcall : call.isProper = true) (hw : call.work? = some w) {r : Registry}
    (hr : r.IsProper) :
    Yields (w.steps r) fun s => stepsAreProper s = true := by
  -- a change builds proper steps for every proper model
  have hchange : ∀ {model builder options}, w = .change model builder options →
      (∀ m : Model, m.IsProper → Build.AddsProper (builder m)) →
        Yields (w.steps r) fun s => stepsAreProper s = true := by
    intro model builder options heq hadds
    subst heq
    exact Yields.bind (P := Model.IsProper) (fun m hm => hr.get hm) fun m hm =>
      (hadds m hm).yields
  cases call
  case create model record options =>
    exact hchange (Option.some.inj hw).symm fun m hm =>
      Query.addsProper_create hm hcall
  case save model record options =>
    refine hchange (Option.some.inj hw).symm fun m hm =>
      .of_check fun es hes => ?_
    have hid := Value.isProper_get
      (Value.haveProperKeys_of_entries hcall hes) m.idField
    exact Query.addsProper_replace hm hid hcall
  case replaceById model id record options =>
    simp only [isProper, Bool.and_eq_true] at hcall
    exact hchange (Option.some.inj hw).symm fun m hm =>
      Query.addsProper_replace hm hcall.1 hcall.2
  case updateAll model filter record options =>
    simp only [isProper, Bool.and_eq_true] at hcall
    exact hchange (Option.some.inj hw).symm fun m hm =>
      Query.addsProper_update hm hcall.1 hcall.2
  case destroyAll model filter options =>
    exact hchange (Option.some.inj hw).symm fun m hm =>
      Query.addsProper_drop hm hcall
  case destroyById model id options =>
    exact hchange (Option.some.inj hw).symm fun m hm =>
      Query.addsProper_drop hm (Query.isProper_byId hm hcall)
  case execute steps options mode =>
    rw [← Option.some.inj hw]
    exact yields_pure hcall
  case engine model steps options mode =>
    rw [← Option.some.inj hw]
    exact yields_pure hcall
  all_goals exact absurd hw (by simp [work?])

namespace Connector

variable {c : Connector} {call : Call} {calls : List Call} {tx : String}
  {held : List (List Step)}

-- ===================================================================== runs

theorem isProper_registry_perform (hr : c.registry.IsProper)
    (hcall : call.isProper = true) :
    (c.perform call).2.registry.IsProper := by
  have hafter : (c.perform call).2.registry = (call.act c).2.registry := rfl
  rw [hafter]
  by_cases hregister : ∃ d, call = .register d
  · obtain ⟨d, rfl⟩ := hregister
    simp only [Call.act, Act.register, Act.run]
    split
    · next registry m hd => exact hr.registerDefinition hcall hd
    · exact hr
  · have hsame := Act.sameRegistry_act (fun d h => hregister ⟨d, h⟩) c
    rw [show (call.act c).2.registry = c.registry from hsame]
    exact hr

theorem isProper_registry_runCalls (hr : c.registry.IsProper)
    (hcalls : ∀ call ∈ calls, call.isProper = true) :
    (c.runCalls calls).registry.IsProper := by
  induction calls generalizing c with
  | nil => exact hr
  | cons call calls ih =>
      have hfirst :=
        isProper_registry_perform hr (hcalls call List.mem_cons_self)
      exact ih hfirst fun later hlater =>
        hcalls later (List.mem_cons_of_mem call hlater)

/-- One call adds proper traversals to those that a transaction holds. -/
theorem isProper_heldAfter (hr : c.registry.IsProper)
    (hcall : call.isProper = true)
    (hheld : ∀ s ∈ held, stepsAreProper s = true) :
    ∀ s ∈ c.heldAfter tx held call, stepsAreProper s = true := by
  unfold heldAfter
  split
  · split
    · next w hw =>
      split
      · next s hs =>
        have hproper := call.yields_steps hcall hw hr s hs
        unfold Work.addTo
        split
        · intro t ht
          exact List.mem_singleton.mp ht ▸ hproper
        · intro t ht
          rcases List.mem_append.mp ht with ht | ht
          · exact hheld t ht
          · exact List.mem_singleton.mp ht ▸ hproper
      · exact hheld
    · exact hheld
  · exact hheld

/-- Whatever calls are made with values that applications can make, all that a
transaction holds is proper. -/
theorem isProper_heldBy (hr : c.registry.IsProper)
    (hcalls : ∀ call ∈ calls, call.isProper = true)
    (hheld : ∀ s ∈ held, stepsAreProper s = true) :
    ∀ s ∈ c.heldBy tx held calls, stepsAreProper s = true := by
  induction calls generalizing c held with
  | nil => exact hheld
  | cons call calls ih =>
      have hcall := hcalls call List.mem_cons_self
      exact ih (isProper_registry_perform hr hcall)
        (fun later hlater => hcalls later (List.mem_cons_of_mem call hlater))
        (isProper_heldAfter hr hcall hheld)

/-- A connector starts with the models of its definitions. -/
theorem isProper_registry_ofSettings {settings : Settings}
    {definitions : List Value} {graph : Graph} {sink : Sink} {openable : Bool}
    (hd : ∀ d ∈ definitions, d.isProper = true)
    (h : ofSettings settings definitions graph sink openable = .ok c) :
    c.registry.IsProper := by
  unfold ofSettings at h
  obtain ⟨registry, hregistry, h⟩ := bind_eq_ok h
  obtain ⟨transactions, -, h⟩ := bind_eq_ok h
  rw [← Except.ok.inj h]
  exact Registry.isProper_ofDefinitions hd Registry.isProper_empty hregistry

end Connector

end GraphMapper

/-
A filter that cannot be read never widens to the whole label.

A selection stands at the front of a count, of a destruction, which counts
first, and of an update, which works out its writes before that. So when a
filter that is given cannot be read these fail with what the parser says of it,
unless something before the selection fails already, and nothing has been
submitted (`malformed_widens_nothing`).

The parser rejects values that are not given too, such as an empty text, a zero
or an empty set. These are taken for no filter at all, and select every element
of the model (`Filter.select_eq_error_iff`).

Chain: `Filter.Malformed` for the parser, `Connector.Changes` for what it is to
be refused, `Query.Updating` for the order of the checks.
-/
import GraphMapper.Proofs.Connector.ById
import GraphMapper.Proofs.Connector.Changes
import GraphMapper.Proofs.Filter.Malformed
import GraphMapper.Proofs.Query.Updating

namespace GraphMapper

variable {c c' : Connector} {model : Option String} {m : Model} {w : Value}
  {e : Failure}

namespace Act

open Connector

section

variable (hmodel : c.registry.get model = .ok m)
  (hselect : Filter.select m w = .error e)

include hmodel hselect

private theorem refused_count : Refused (.ok ()) e (count model w) c := by
  refine Refused.observed (Refused.bind ?_ _) "count" model
  apply refused_of_error
  rw [build_apply (still_pure []) hmodel]
  unfold Query.count Query.select
  rw [bind_assoc]
  show (Build.traversalFrom [] _, c) = _
  rw [Build.traversalFrom_check_bind, hselect]
  rfl

/-- A destruction counts first. -/
private theorem refused_destroyAll (options : Value) :
    Refused (Options.ofValue options) e (destroyAll model w options) c := by
  rw [destroyAll_eq]
  cases Options.ofValue options with
  | error f => exact refused_of_error (bind_apply_error rfl)
  | ok o =>
      obtain ⟨c', hgo, hunmoved⟩ := refused_count hmodel hselect
      exact ⟨c', (bind_apply_ok rfl).trans (bind_apply_error hgo), hunmoved⟩

/-- An update looks at the record first. -/
private theorem refused_updateAll (record options : Value) :
    Refused (do
      let o ← Options.ofValue options
      let _ ← (source o c).1
      Query.changes m record) e (updateAll model w record options) c := by
  rw [updateAll_eq]
  apply Refused.check_bind
  intro o _
  refine Refused.observed (Refused.bind (Refused.bind ?_ _) _)
    "update_all" model
  apply refused_of_error
  rw [build_apply (still_source o) hmodel]
  simp only [Query.traversalFrom_update, hselect]
  cases (source o c).1 with
  | error f => rfl
  | ok start => cases Query.changes m record <;> rfl

end

/-- A filter that is given, that the parser rejects, and that does not seek an
id, has a count, a destruction and an update fail with what the parser says,
and nothing is submitted. -/
theorem malformed_widens_nothing (hmodel : c.registry.get model = .ok m)
    (hid : m.idField.isKey = true) (hgiven : w.isGiven = true)
    (hsought : ∀ id, Filter.soughtId? m.idField w ≠ .ok (some id))
    (hparse : Filter.parse m.conditionKey w = .error e) :
    (e.isUnreadable = true ∨ Filter.keysShow w = false ∧
      (e = .slip .type ∨ e = .slip .value)) ∧
    (∀ steps, (Query.select m w).runFrom steps = (.error e, steps)) ∧
    Refused (.ok ()) e (count model w) c ∧
    (∀ options, Refused (Options.ofValue options) e
      (destroyAll model w options) c) ∧
    ∀ record options, Refused (do
      let o ← Options.ofValue options
      let _ ← (source o c).1
      Query.changes m record) e (updateAll model w record options) c := by
  have hselect :=
    Filter.select_malformed hgiven (Filter.soughtId_none hid hsought) hparse
  refine ⟨Filter.failsOnly_parse _ w e hparse, fun steps => ?_,
    refused_count hmodel hselect, refused_destroyAll hmodel hselect,
    refused_updateAll hmodel hselect⟩
  unfold Query.select
  rw [Build.runFrom_bind, Build.runFrom_check, hselect]

theorem malformed_widens_nothing_text :
    ∃ c', destroyAll (some "Person") (.text "p1") .null
      sampleConnector = (.error (.validation "where clause must be a mapping"
        [(.text "type", .text "str")]),
        c') ∧ c'.server.graph = Filter.sampleGraph := by
  have hmodel : sampleConnector.registry.get (some "Person")
      = .ok Filter.sampleModel := rfl
  have hgiven : (Value.text "p1").isGiven = true := rfl
  obtain ⟨-, -, -, hdestroy, -⟩ := malformed_widens_nothing hmodel rfl hgiven
    (fun _ h => nomatch h) rfl
  obtain ⟨c', hgo, notes, hsame, -⟩ := hdestroy .null
  refine ⟨c', hgo, ?_⟩
  rw [hsame]
  rfl

-- An empty text is no filter either, but it is not given: both vertices of the
-- model are counted.
example : (match (count (some "Person") (.text "") sampleConnector).1 with
    | .ok n => some n
    | .error _ => none) = some 2 := by
  decide +kernel

end Act

end GraphMapper

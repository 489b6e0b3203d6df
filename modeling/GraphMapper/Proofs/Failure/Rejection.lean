/-
Rejections: the faults that report what is wrong with the arguments of a call.

An argument that is read as something else, and a result that is put into plain
terms, may be of the wrong kind altogether, which is a slip. Rejections come
from rules of the library, and these are about arguments only: nothing that is
done with a value or with a result knows of them.

# Where a rejection cannot come from

The lemmas go from values to results. To read a value as something else fails
with a slip; a table of transactions reports what it does not know with a
failure that is no rejection; and what an answer is turned into is read off
values alone. Together they are what stands behind the first submission of an
operation.

Chain: `Checked` has the calculus (`FailsOnly`); `Graph.Refusals` adds the
traversals, and `Connector.Rejection` puts both to use.
-/
import GraphMapper.Connector.Operations
import GraphMapper.Proofs.Value.Printing

namespace GraphMapper

/-- The kinds of faults that are about the arguments of a call. -/
def FaultKind.isRejection (k : FaultKind) : Bool :=
  k.isValidation ||
    [.unsupportedOperator, .unsupportedType, .invalidExecutionMode].contains k

/-- The failure reports what is wrong with the arguments of a call. -/
def Failure.isRejection : Failure → Bool
  | .fault f => f.kind.isRejection
  | _ => false

/-- If there is a failure, it is no rejection. -/
abbrev NeverRejects {β : Type} (r : Checked β) : Prop :=
  FailsOnly (fun e => e.isRejection = false) r

variable {β γ : Type} {r : Checked β}

/-- A rejection has come of it. -/
def rejects (r : Checked β) : Bool :=
  match r with
  | .error e => e.isRejection
  | .ok _ => false

/-- A rejection is a failure that can be looked at. -/
theorem exists_of_rejects (h : rejects r = true) :
    ∃ e, r = .error e ∧ e.isRejection = true := by
  cases r with
  | error e => exact ⟨e, rfl, h⟩
  | ok b => cases h

/-- A slip comes from no rule. -/
theorem neverRejects_slip (s : Slip) :
    NeverRejects (.error (.slip s) : Checked β) :=
  failsOnly_error rfl

/-- Neither does the lack of a text. -/
theorem Failure.IsTextless.isRejection_eq_false {e : Failure}
    (h : e.IsTextless) :
    e.isRejection = false := by
  rcases h with rfl | rfl
  · rfl
  · rfl

-- ================================================================== values

namespace Value

/-- A value without a text is no rejection. -/
private theorem neverRejects_plain (v : Value) : NeverRejects v.plain :=
  fun e he => (v.failsOnly_plain e he).isRejection_eq_false

/-- What may be no key is not rejected either. -/
private theorem neverRejects_keyFault (v : Value) :
    NeverRejects (.error v.keyFault : Checked β) :=
  failsOnly_error v.isTextless_keyFault.isRejection_eq_false

/-- What is no mapping has no entries, which is a slip. -/
theorem neverRejects_entries (v : Value) : NeverRejects v.entries := by
  unfold entries
  split
  · exact failsOnly_ok _
  · exact neverRejects_slip _
  · exact neverRejects_slip _

/-- What is no row has no items. -/
private theorem neverRejects_items (v : Value) : NeverRejects v.items := by
  unfold items
  split
  all_goals first | exact failsOnly_ok _ | exact neverRejects_slip _

/-- What is no number is not read as one. -/
private theorem neverRejects_toInt (v : Value) : NeverRejects v.toInt := by
  unfold toInt
  split
  · exact failsOnly_ok _
  · exact failsOnly_ok _
  · split
    · exact failsOnly_ok _
    · exact neverRejects_slip _
  · split
    · exact failsOnly_ok _
    · exact neverRejects_slip _
  · split
    · exact neverRejects_slip _
    · split
      · exact failsOnly_ok _
      · exact neverRejects_slip _

end Value

/-- A value that cannot be a key is not looked for. -/
theorem Entries.neverRejects_find (key : Value) (es : List (Value × β)) :
    NeverRejects (Entries.find key es) := by
  unfold Entries.find
  split
  · exact failsOnly_ok _
  · exact key.neverRejects_keyFault

namespace Value

/-- What can hold nothing is not looked into. -/
theorem neverRejects_contains (container v : Value) :
    NeverRejects (container.contains v) := by
  unfold contains
  split
  · exact failsOnly_ok _
  · exact failsOnly_ok _
  · exact failsOnly_ok _
  · split
    · exact failsOnly_ok _
    · split
      · exact failsOnly_ok _
      · exact v.neverRejects_keyFault
  · exact (Entries.neverRejects_find _ _).bind fun _ => failsOnly_ok _
  · split
    · exact failsOnly_ok _
    · split
      · exact failsOnly_ok _
      · exact neverRejects_slip _
    · exact neverRejects_slip _
  · split
    · exact failsOnly_ok _
    · exact neverRejects_slip _

/-- A row has items at numbers, and only as many as it has. -/
private theorem neverRejects_itemAt (items : List Value) (place : Value) :
    NeverRejects (itemAt items place) := by
  refine FailsOnly.bind ?_ fun _ => failsOnly_ok _
  unfold placeIn
  split
  · exact neverRejects_slip _
  · next n _ =>
    simp only
    generalize (if n < 0 then n + items.length else n) = fromFront
    split
    · exact failsOnly_ok _
    · exact neverRejects_slip _

/-- So nothing that is looked up in a value rejects anything. -/
private theorem neverRejects_at? (container key : Value) :
    NeverRejects (container.at? key) := by
  unfold at?
  split
  · refine (Entries.neverRejects_find _ _).bind fun found => ?_
    split
    · exact failsOnly_ok _
    · exact neverRejects_slip _
  · exact (neverRejects_items _).bind fun _ => neverRejects_itemAt _ _
  · exact (neverRejects_items _).bind fun _ => neverRejects_itemAt _ _
  · exact (neverRejects_items _).bind fun _ => neverRejects_itemAt _ _
  · split
    · exact neverRejects_slip _
    · exact neverRejects_itemAt _ _
  · split
    · exact neverRejects_slip _
    · exact (neverRejects_items _).bind fun _ => neverRejects_itemAt _ _

end Value

-- ============================================================ transactions

namespace Transactions

variable {π : Type} {r : Transactions π} {id : String}

/-- A transaction that is not there is reported as such, which is about no
argument. -/
theorem neverRejects_pending : NeverRejects (r.pending id) := by
  unfold Transactions.pending
  split
  · exact failsOnly_ok _
  · exact failsOnly_error rfl

/-- So it is when work is brought to it. -/
theorem neverRejects_store {work : Option π} :
    NeverRejects (r.store id work) := by
  unfold store
  split
  · exact failsOnly_ok _
  · exact failsOnly_error rfl

/-- And when it is to be committed. -/
theorem neverRejects_commit : NeverRejects (r.commit id) := by
  unfold commit
  split
  · exact failsOnly_ok _
  · exact failsOnly_error rfl

/-- A timeout is no number or has no place among numbers: slips. -/
theorem neverRejects_begin (now : Int) (own : Value) :
    NeverRejects (r.begin now own).1 := by
  have htimeout :
      NeverRejects (timeoutOf { r with issued := r.issued + 1 } own) := by
    unfold timeoutOf
    simp only
    split
    · split
      · exact failsOnly_ok _
      · exact neverRejects_slip _
    · exact failsOnly_ok _
    · split
      · exact failsOnly_ok _
      · exact neverRejects_slip _
  unfold begin
  simp only
  split
  · next e he => exact failsOnly_error (htimeout e he)
  · exact failsOnly_ok _

end Transactions

-- ================================================================= results

namespace Result

/-- A reference is made of an id and a label that have texts, or there is
none. -/
private theorem neverRejects_withReference (field : String) (theEnd : Value)
    (es : Entries) :
    NeverRejects (withReference field theEnd es) := by
  unfold withReference
  split
  · refine (Value.neverRejects_plain _).bind fun label => ?_
    exact (Value.neverRejects_plain _).bind fun id => failsOnly_ok _
  · exact failsOnly_ok _

/-- An edge has two ends of that kind. -/
private theorem neverRejects_collapseEdge (es : Entries) :
    NeverRejects (collapseEdge es) :=
  (neverRejects_withReference _ _ _).bind fun _ =>
    neverRejects_withReference _ _ _

/-- A row of the server is put into a record without asking for a rule. -/
private theorem neverRejects_record (edge : Bool) (item : Value) :
    NeverRejects (record edge item) := by
  unfold record
  split
  · split
    · exact (neverRejects_collapseEdge _).bind fun _ => failsOnly_ok _
    · exact failsOnly_ok _
  · exact failsOnly_ok _

/-- A result can be put into plain terms or not, but no argument is to
blame. -/
theorem neverRejects_present (edge : Bool) (raw : Value) :
    NeverRejects (present edge raw) := by
  unfold present
  split
  · exact (failsOnly_mapM (neverRejects_record edge) _).bind fun _ =>
      failsOnly_ok _
  · split
    · exact (neverRejects_collapseEdge _).bind fun _ => failsOnly_ok _
    · exact failsOnly_ok _
  · exact failsOnly_ok _

end Result

namespace Record

/-- A field of a row is read from where it is stored. -/
private theorem neverRejects_storedField (m : Model) (record : Value)
    (acc : Entries) (name : Value) :
    NeverRejects (storedField m record acc name) := by
  have hname : NeverRejects (do
      if ← record.contains name then
        .ok (Entries.insert name (← record.at? name) acc)
      else .ok acc) := by
    refine (Value.neverRejects_contains _ _).bind fun found => ?_
    split
    · exact (Value.neverRejects_at? _ _).bind fun _ => failsOnly_ok _
    · exact failsOnly_ok _
  unfold storedField
  refine FailsOnly.bind ?_ fun found => ?_
  · split
    · exact Value.neverRejects_contains _ _
    · exact failsOnly_ok _
  · split
    · exact (Value.neverRejects_at? _ _).bind fun _ => failsOnly_ok _
    · exact hname

/-- And so are all of them. -/
private theorem neverRejects_fromStorage (m : Model) (record : Value) :
    NeverRejects (fromStorage m record) :=
  failsOnly_foldlM (neverRejects_storedField m record) _ _

end Record

/-- The fields that are asked for are a row, or a slip. -/
theorem Projection.neverRejects_fields (filter : Entries) :
    NeverRejects (Projection.fields filter) := by
  unfold Projection.fields
  split
  · exact failsOnly_ok _
  · refine FailsOnly.bind ?_ fun _ => failsOnly_ok _
    unfold names
    split
    · exact failsOnly_ok _
    · split
      · exact failsOnly_ok _
      · exact Value.neverRejects_items _

namespace Act

/-- An answer that is no count is a slip. -/
theorem neverRejects_countOf (v : Value) : NeverRejects (countOf v) := by
  unfold countOf
  split
  · exact Value.neverRejects_toInt _
  · exact failsOnly_ok _

/-- Rows are items of an answer. -/
theorem neverRejects_rowsOf (v : Value) : NeverRejects (rowsOf v) := by
  unfold rowsOf
  split
  · exact Value.neverRejects_items _
  · exact failsOnly_ok _

/-- A record has of a row what there is in it. -/
theorem neverRejects_toRecord (m : Model) (fields : Option (List Value))
    (row : Value) :
    NeverRejects (toRecord m fields row) := by
  unfold toRecord
  split
  · refine (Record.neverRejects_fromStorage _ _).bind fun own => ?_
    simp only
    split
    · exact failsOnly_ok _
    · exact failsOnly_ok _
  · exact failsOnly_ok _

end Act

end GraphMapper

/-
The records of vertices.

The row of a vertex shows its id and its label under the reserved keys, and
behind them the properties that have been asked for (`row_vertex`). In normal
form the reserved keys become texts, and the label is left out
(`ofRow_vertex`). That keeps the properties apart from both as long as none of
them is stored under one of these texts, or under a key that changes in normal
form.

# Which texts are in the way

The id becomes `id` and the label `label`, and a property under one of these
texts would come to stand there as well. What is said here of a row is said for
properties that do not; on models it is a condition that none of their columns
is one of these texts (`Model.Unreserved`).

Chain: `Graph.Rows` for the rows; `Result.Edges` has the same for edges, and
`Connector.Records` the records.
-/
import GraphMapper.Proofs.Graph.Rows
import GraphMapper.Proofs.Value.Entries

namespace GraphMapper

variable {g : Graph} {e : Element} {keys : List Value}

/-- The properties of an element that a row is asked for. -/
def Element.chosen (e : Element) (keys : List Value) : Entries :=
  e.props.filter fun p => keys.isEmpty || p.1.isIn keys

namespace Graph

/-- A reserved key is the same as no key but members of a vocabulary. -/
private theorem reserved_sameKey {key : Value} (hplain : ∀ s, key ≠ .symbol s)
    (r : Reserved) :
    (Value.symbol (.reserved r)).sameKey key = false := by
  cases key with
  | symbol s => exact absurd rfl (hplain s)
  | _ => rfl

theorem row_vertex (hvertex : e.ends = none)
    (hchosen : Entries.IsMapping (e.chosen keys))
    (hplain : ∀ p ∈ e.chosen keys, ∀ s, p.1 ≠ .symbol s) :
    g.row keys e = .ok (reference e ++ e.chosen keys) := by
  have hapart : Entries.IsMapping (reference e ++ e.chosen keys) := by
    refine List.pairwise_append.mpr ⟨?_, hchosen, fun a ha b hb => ?_⟩
    · refine List.pairwise_cons.mpr ⟨fun b hb => ?_,
        List.pairwise_singleton _ _⟩
      rw [List.mem_singleton.mp hb]
      rfl
    · simp only [reference, List.mem_cons, List.not_mem_nil, or_false] at ha
      rcases ha with rfl | rfl
      · exact reserved_sameKey (hplain b hb) .id
      · exact reserved_sameKey (hplain b hb) .label
  unfold row
  rw [hvertex]
  show Except.ok ((e.chosen keys ++ []).foldl
    (fun (acc : Entries) (p : Value × Value) => Entries.insert p.1 p.2 acc)
      (reference e)) = _
  rw [List.append_nil, Entries.foldl_insert hapart]

end Graph

namespace Result

theorem normalizeEntries_eq_map (es : Entries) :
    normalizeEntries es = es.map fun p => (normalKey p.1, normalize p.2) := by
  induction es with
  | nil => rfl
  | cons p es ih =>
      obtain ⟨k, v⟩ := p
      rw [normalizeEntries, ih, List.map_cons]

/-- The entries with their values in normal form. -/
def normalValues (es : Entries) : Entries :=
  es.map fun p => (p.1, normalize p.2)

theorem lookup?_normalValues (key : Value) (es : Entries) :
    Entries.lookup? key (normalValues es)
      = (Entries.lookup? key es).map normalize := by
  induction es with
  | nil => rfl
  | cons p es ih =>
      unfold normalValues at ih ⊢
      rw [List.map_cons, Entries.lookup?_cons, Entries.lookup?_cons, ih]
      cases p.1.sameKey key <;> rfl

/-- Keys that belong to no vocabulary stay as they are. -/
theorem normalizeEntries_of_plain {es : Entries}
    (hplain : ∀ p ∈ es, ∀ s, p.1 ≠ .symbol s) :
    normalizeEntries es = normalValues es := by
  rw [normalizeEntries_eq_map]
  refine List.map_congr_left fun p hp => ?_
  have hkey : normalKey p.1 = p.1 := by
    unfold normalKey
    split
    · next s hs => exact absurd hs (hplain p hp s)
    · rfl
  rw [hkey]

/-- The row of a vertex in normal form. -/
def normalRow (e : Element) (chosen : Entries) : Entries :=
  (.text "id", normalize e.id) :: (.text "label", normalize e.label)
    :: normalValues chosen

section

variable {chosen : Entries} (hchosen : Entries.IsMapping chosen)
  (hfree : ∀ p ∈ chosen, p.1.face? ≠ some (.text "id") ∧
    p.1.face? ≠ some (.text "label"))

include hchosen hfree

/-- The reserved keys do not run into the properties when they become texts. -/
private theorem isMapping_normalRow :
    Entries.IsMapping (normalRow e chosen) := by
  have hapart : ∀ {s : String} {q : Value × Value},
      q.1.face? ≠ some (.text s) → (Value.text s).sameKey q.1 = false := by
    intro s q hne
    rw [Bool.eq_false_iff]
    exact fun hsame =>
      hne ((Value.sameKey_iff_face' (show (Value.text s).face?
          = _ from rfl)).mp hsame)
  refine List.pairwise_cons.mpr ⟨fun p hp => ?_,
    List.pairwise_cons.mpr ⟨fun p hp => ?_, List.pairwise_map.mpr hchosen⟩⟩
  · rcases List.mem_cons.mp hp with rfl | hp
    · exact hapart (by simp [Value.face?])
    · obtain ⟨q, hq, rfl⟩ := List.mem_map.mp hp
      exact hapart (hfree q hq).1
  · obtain ⟨q, hq, rfl⟩ := List.mem_map.mp hp
    exact hapart (hfree q hq).2

private theorem normalize_row (hplain : ∀ p ∈ chosen, ∀ s, p.1 ≠ .symbol s) :
    normalize (.map (Graph.reference e ++ chosen))
      = .map (normalRow e chosen) := by
  have hnormal : normalizeEntries (Graph.reference e ++ chosen)
      = normalRow e chosen := by
    rw [normalizeEntries_eq_map, List.map_append,
      ← normalizeEntries_eq_map chosen, normalizeEntries_of_plain hplain]
    rfl
  rw [normalize, hnormal, (isMapping_normalRow hchosen hfree).ofList_eq]

theorem ofRow_vertex (hplain : ∀ p ∈ chosen, ∀ s, p.1 ≠ .symbol s) :
    ofRow false (Graph.reference e ++ chosen)
      = .ok (.map ((.text "id", normalize e.id) :: normalValues chosen)) := by
  have herase : Entries.erase (.text "label") (normalRow e chosen)
      = (.text "id", normalize e.id) :: normalValues chosen := by
    have hsplit : Entries.IsMapping ([(.text "id", normalize e.id)]
        ++ (.text "label", normalize e.label) :: normalValues chosen) :=
      isMapping_normalRow hchosen hfree
    exact hsplit.erase_append ((Value.sameKey_iff_face rfl).mpr rfl)
  unfold ofRow
  rw [normalize_row hchosen hfree hplain]
  show Except.ok (Value.map (Entries.erase (.text "label") _)) = _
  rw [herase]

end

end Result

end GraphMapper

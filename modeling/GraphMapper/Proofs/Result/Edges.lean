/-
The records of edges.

The row of an edge shows its ends under their directions, each with its label
and its id. In normal form a direction is its name, so an end is what stands
under `IN` or `OUT` there unless a property of that name comes behind it. Ends
come last in a row, but for those that take the place of a property: so this is
a matter of how the edge's properties are ordered (`Element.ShowsEnds`,
`row_edge`). The record has references in the place of the ends
(`collapseEdge_named`, `ofRow_edge`).

# How an end can be covered

A property whose key is `IN` is one entry of the row, and the direction inward
is another. In normal form they are the same text, and the later one is found.
Since ends come last this is the end, unless a property has the direction
itself for its key: the end then takes the place of that property, and one that
is named `IN` may come behind it.

Chain: `Result.Records` for rows without ends; `Graph.Columns` and
`Connector.References` read them.
-/
import GraphMapper.Proofs.Result.Records

namespace GraphMapper

variable {g : Graph} {e : Element} {columns : List Value} {o t : Handle}
  {label id label' id' : String}

/-- The element has texts for its label and its id. -/
structure Element.IsNamed (e : Element) (label id : String) : Prop where
  label : e.label = .text label
  id : e.id = .text id

/-- No key that is the name of the direction stands behind the direction
itself. -/
def Direction.Clears (d : Direction) (ks : List Value) : Prop :=
  ks.Pairwise fun a b => a = .symbol (.direction d) → b ≠ .text d.name

/-- The ends of an edge with these properties are not covered by one of
them. -/
def Element.ShowsEnds (e : Element) : Prop :=
  ∀ d, d ≠ Direction.both → d.Clears (Entries.keys e.props)

/-- The names of directions are no other names. -/
private theorem Symbol.eq_direction_of_name {s : Symbol} {d : Direction}
    (h : s.name = d.name) :
    s = .direction d := by
  cases s with
  | direction d' =>
      cases d <;> cases d' <;> first | rfl | exact absurd h (by decide)
  | reserved r => cases d <;> cases r <;> exact absurd h (by decide)
  | sorting o => cases d <;> cases o <;> exact absurd h (by decide)
  | fieldType t => cases d <;> cases t <;> exact absurd h (by decide)

namespace Value

/-- A direction is the same as nothing else. -/
theorem eq_direction_of_sameKey {v : Value} {d : Direction}
    (h : v.sameKey (.symbol (.direction d)) = true) :
    v = .symbol (.direction d) := by
  unfold sameKey at h
  rw [Bool.and_eq_true] at h
  obtain ⟨h, -⟩ := h
  cases v with
  | symbol s =>
      cases s with
      | direction d' => cases d <;> cases d' <;> first | rfl | cases h
      | fieldType t => cases h
      | reserved r => cases h
      | _ => cases h
  | float x => cases x <;> cases h
  | _ => cases h

end Value

namespace Result

/-- The name of a direction is the normal form of the direction, and of
itself. -/
private theorem normalKey_eq_name {v : Value} {d : Direction}
    (h : normalKey v = .text d.name) :
    v = .text d.name ∨ v = .symbol (.direction d) := by
  unfold normalKey at h
  split at h
  · exact .inr (congrArg Value.symbol
      (Symbol.eq_direction_of_name (Value.text.inj h)))
  · exact .inl h

/-- A key in normal form has the face of a text only if it is that text. -/
private theorem normalKey_of_face {v : Value} {s : String}
    (h : (normalKey v).face? = some (.text s)) :
    normalKey v = .text s := by
  cases v with
  | symbol r => exact congrArg Value.text (Face.text.inj (Option.some.inj h))
  | text s' => exact congrArg Value.text (Face.text.inj (Option.some.inj h))
  | float x =>
      obtain ⟨p, -, hp⟩ := Option.map_eq_some_iff.mp h
      exact absurd hp (p.face_ne.1 s).1
  | dateTime t => exact absurd (Option.some.inj h) (t.face_ne.1 s).1
  | _ => cases h

end Result

namespace Graph

open Entries

variable {row : Entries} {d : Direction}

/-- The row has an end under its direction, and nothing with the direction's
name behind it. -/
def Shows (row : Entries) (d : Direction) (e : Element) : Prop :=
  ∃ before behind,
    row = before ++ (.symbol (.direction d), .map (reference e)) :: behind ∧
    ∀ p ∈ behind, Result.normalKey p.1 ≠ .text d.name

private theorem shows_of_mem (hrow : IsMapping row)
    (hkeys : d.Clears (keys row))
    (hmem : (.symbol (.direction d), .map (reference e)) ∈ row) :
    Shows row d e := by
  obtain ⟨before, behind, rfl⟩ := List.append_of_mem hmem
  refine ⟨before, behind, rfl, fun p hp hname => ?_⟩
  have hother : (Value.symbol (.direction d)).sameKey p.1 = false :=
    (List.pairwise_cons.mp (List.pairwise_append.mp hrow).2.1).1 p hp
  have hne : p.1 ≠ .text d.name :=
    (List.pairwise_cons.mp
      (List.pairwise_append.mp (List.pairwise_map.mp hkeys)).2.1).1 p hp rfl
  rcases Result.normalKey_eq_name hname with hp | hp
  · exact hne hp
  · rw [hp] at hother
    cases d <;> cases hother

/-- The ends of an edge as its row shows them. -/
def endsShown (g : Graph) (o t : Handle) : Entries :=
  [(.symbol (.direction .inward), .map (reference (g.element t))),
    (.symbol (.direction .outward), .map (reference (g.element o)))]

/-- Properties come into the row in their order, behind id and label and before
the ends. So the name of a direction comes behind it only if it does so among
the properties. -/
private theorem clears_shown (hprops : e.ShowsEnds) (hd : d ≠ .both)
    (o t : Handle) :
    d.Clears (keys ((e.chosen columns ++ g.endsShown o t).foldl
      (fun (acc : Entries) p => insert p.1 p.2 acc) (reference e))) := by
  have hchosen : d.Clears (keys (e.chosen columns)) :=
    (hprops d hd).sublist (List.filter_sublist.map _)
  have hall : d.Clears (keys (e.chosen columns ++ g.endsShown o t)) := by
    rw [show keys (e.chosen columns ++ g.endsShown o t)
      = keys (e.chosen columns) ++ keys (g.endsShown o t) from List.map_append]
    refine List.pairwise_append.mpr ⟨hchosen, ?_, fun a _ b hb _ => ?_⟩
    · exact List.pairwise_pair.mpr fun _ => Value.noConfusion
    · simp only [keys, endsShown, List.map_cons, List.map_nil, List.mem_cons,
        List.not_mem_nil, or_false] at hb
      rcases hb with rfl | rfl <;> exact Value.noConfusion
  refine List.Pairwise.sublist (keys_insertions_sublist _ _) ?_
  show d.Clears
    (.idKey :: .labelKey :: keys (e.chosen columns ++ g.endsShown o t))
  refine List.pairwise_cons.mpr ⟨fun _ _ heq => (by cases heq), ?_⟩
  exact List.pairwise_cons.mpr ⟨fun _ _ heq => (by cases heq), hall⟩

/-- The row of an edge has both of its ends. -/
theorem row_edge (hends : e.ends = some ⟨o, some t⟩) (hprops : e.ShowsEnds) :
    ∃ row, g.row columns e = .ok row ∧ Shows row .inward (g.element t) ∧
      Shows row .outward (g.element o) := by
  let row := (e.chosen columns ++ g.endsShown o t).foldl
    (fun (acc : Entries) p => insert p.1 p.2 acc) (reference e)
  have hmade : g.row columns e = .ok row := by
    unfold Graph.row
    rw [hends]
    rfl
  have hrow : IsMapping row :=
    IsMapping.insertions (List.pairwise_pair.mpr rfl)
  have hlast : ∃ own, row
      = insert (.symbol (.direction .outward)) (.map (reference (g.element o)))
        (insert (.symbol (.direction .inward))
          (.map (reference (g.element t))) own) :=
    ⟨_, List.foldl_append⟩
  obtain ⟨own, hown⟩ := hlast
  refine ⟨row, hmade, ?_, ?_⟩
  · refine shows_of_mem hrow (clears_shown hprops (by decide) o t) ?_
    rw [hown]
    exact mem_insert_of_ne
      (mem_insert_self (fun _ => Value.eq_direction_of_sameKey) _ _) rfl _
  · refine shows_of_mem hrow (clears_shown hprops (by decide) o t) ?_
    rw [hown]
    exact mem_insert_self (fun _ => Value.eq_direction_of_sameKey) _ _

end Graph

namespace Result

variable {row : Entries} {d : Direction}

/-- In normal form the end is found under the name of its direction. -/
private theorem lookup?_shown (h : Graph.Shows row d e) :
    Entries.lookup? (.text d.name) (Entries.ofList (normalizeEntries row))
      = some (normalize (.map (Graph.reference e))) := by
  obtain ⟨before, behind, rfl, hbehind⟩ := h
  rw [normalizeEntries_eq_map, List.map_append, List.map_cons]
  refine Entries.lookup?_ofList (show (Value.text d.name).face? = _ from rfl)
    (fun p hp hface => ?_) _ _
  obtain ⟨q, hq, rfl⟩ := List.mem_map.mp hp
  exact hbehind q hq (normalKey_of_face hface)

private theorem normalize_named (h : e.IsNamed label id) :
    normalize (.map (Graph.reference e))
      = elementMap (.text id) (.text label) := by
  show Value.map [(.text "id", normalize e.id),
    (.text "label", normalize e.label)] = _
  rw [h.label, h.id]
  rfl

/-- Ends with texts for their labels and ids become references. -/
theorem collapseEdge_named {es : Entries}
    (hout : Entries.lookup? (.text "OUT") es
      = some (elementMap (.text id) (.text label)))
    (hin : Entries.lookup? (.text "IN") es
        = some (elementMap (.text id') (.text label'))) :
    ∃ more, collapseEdge es = .ok more ∧
      Entries.lookup? (.text "from") more = some (.text (label ++ "/" ++ id)) ∧
      Entries.lookup? (.text "to") more
        = some (.text (label' ++ "/" ++ id')) := by
  let rest := es.filter fun e => !e.1.isIn endKeys &&
    !e.1.equal (.text "label")
  have hcollapse : collapseEdge es
      = .ok (Entries.insert (.text "to") (.text (label' ++ "/" ++ id'))
        (Entries.insert (.text "from")
          (.text (label ++ "/" ++ id)) rest)) := by
    show (withReference "from" (Entries.field "OUT" es) rest >>=
      withReference "to" (Entries.field "IN" es)) = _
    unfold Entries.field Entries.get
    rw [hout, hin]
    rfl
  refine ⟨_, hcollapse, ?_, Entries.lookup?_insert_self rfl _ _⟩
  rw [Entries.lookup?_insert_of_ne (show (Value.text "from").face?
    = _ from rfl) (by simp [Value.face?]), Entries.lookup?_insert_self rfl]

theorem ofRow_edge (ho : (g.element o).IsNamed label id)
    (ht : (g.element t).IsNamed label' id')
    (hin : Graph.Shows row .inward (g.element t))
    (hout : Graph.Shows row .outward (g.element o)) :
    ∃ es, ofRow true row = .ok (.map es) ∧
      Entries.lookup? (.text "from") es = some (.text (label ++ "/" ++ id)) ∧
      Entries.lookup? (.text "to") es
        = some (.text (label' ++ "/" ++ id')) := by
  replace hin := lookup?_shown hin
  replace hout := lookup?_shown hout
  rw [normalize_named ht] at hin
  rw [normalize_named ho] at hout
  obtain ⟨more, hcollapse, hfrom, hto⟩ := collapseEdge_named hout hin
  have hhas : (endKeys.any fun k =>
      Entries.has k (Entries.ofList (normalizeEntries row))) = true := by
    refine List.any_eq_true.mpr ⟨.text "IN", List.mem_cons_self, ?_⟩
    rw [Entries.has_eq_isSome]
    show (Entries.lookup? (.text Direction.inward.name) _).isSome = true
    rw [hin]
    rfl
  refine ⟨more, ?_, hfrom, hto⟩
  unfold ofRow record
  rw [show normalize (.map row)
      = .map (Entries.ofList (normalizeEntries row)) from rfl]
  simp only [hhas, Bool.and_self, if_true, hcollapse, bind, Except.bind]

end Result

end GraphMapper

/-
References as texts.

A reference is written as two texts with a slash between them, and read by its
pieces between slashes. So it is read back just when both texts have something
in them and no slash (`parse_eq_ok_iff`): a second slash makes a third piece.
What is no text is read by its plain form (`Reads`).

# Three outcomes

A reference is missing if there is null or an empty text under the name of an
end (`Missing`), and nothing else is taken for none. What is there is read by
its text, which is the value itself only if it is a text; for anything else it
is what the value is written as, and that can fail. If there is a text that has
no two halves, the reference is malformed. The three exclude each other, and
which of them it is does not depend on the graph.

Chain: `Value.Sameness` for the names of the ends; `Query.Joining` and
`Connector.References` read references.
-/
import GraphMapper.Proofs.Value.Sameness
import GraphMapper.Query.Builder
import GraphMapper.Value.Mapping

namespace GraphMapper

namespace Text

variable {sep : Char} {cs piece : List Char}

/-- Pieces are what the library's split gives. -/
private theorem pieces_eq_splitOn (sep : Char) (cs : List Char) :
    pieces sep cs = cs.splitOn sep := by
  induction cs with
  | nil => rfl
  | cons c cs ih =>
      rw [pieces, ih, List.splitOn_eq_splitOnP, List.splitOn_eq_splitOnP,
        List.splitOnP_cons_eq_if_modifyHead]
      by_cases hc : c = sep
      · rw [if_pos hc, if_pos (by simpa using hc)]
      · rw [if_neg hc, if_neg (by simpa using hc)]
        cases hrest : cs.splitOnP (· == sep) with
        | nil => exact absurd hrest (List.splitOnP_ne_nil _ _)
        | cons piece more => rfl

private theorem not_mem_piece (h : piece ∈ pieces sep cs) : sep ∉ piece := by
  induction cs generalizing piece with
  | nil =>
      rw [List.mem_singleton.mp h]
      exact List.not_mem_nil
  | cons c cs ih =>
      rw [pieces] at h
      split at h
      · rcases List.mem_cons.mp h with rfl | h
        · exact List.not_mem_nil
        · exact ih h
      · next hc =>
        split at h
        · rw [List.mem_singleton.mp h, List.mem_singleton]
          exact fun hsep => hc hsep.symm
        · next first more hpieces =>
          rcases List.mem_cons.mp h with rfl | h
          · intro hmem
            rcases List.mem_cons.mp hmem with hsep | hmem
            · exact hc hsep.symm
            · exact ih (hpieces ▸ List.mem_cons_self) hmem
          · exact ih (hpieces ▸ List.mem_cons_of_mem _ h)

/-- There are two pieces just where there is one separator. -/
private theorem pieces_eq_pair_iff {first second : List Char} :
    pieces sep cs = [first, second] ↔ cs = first ++ sep :: second ∧
      sep ∉ first ∧ sep ∉ second := by
  constructor
  · intro h
    have hjoined : [sep].intercalate (cs.splitOn sep) = cs :=
      List.intercalate_splitOn sep
    have hfirst : first ∈ pieces sep cs := h ▸ List.mem_cons_self
    have hsecond : second ∈ pieces sep cs :=
      h ▸ List.mem_cons_of_mem _ List.mem_cons_self
    rw [← pieces_eq_splitOn, h] at hjoined
    refine ⟨?_, not_mem_piece hfirst, not_mem_piece hsecond⟩
    rw [← hjoined]
    simp [List.intercalate]
  · rintro ⟨rfl, hfirst, hsecond⟩
    have hsplit : ([sep].intercalate [first, second]).splitOn sep
        = [first, second] :=
      List.splitOn_intercalate sep (by simp [hfirst, hsecond])
        (List.cons_ne_nil _ _)
    rw [pieces_eq_splitOn, ← hsplit]
    simp [List.intercalate]

end Text

namespace Reference

variable {name label id : String} {s : String} {v : Value}
  {outcome : Checked (String × String)}

/-- A text that can be half of a reference. -/
structure IsHalf (s : String) : Prop where
  given : s ≠ ""
  whole : '/' ∉ s.toList

/-- A text is read as a reference just when it is two halves with a slash
between them. -/
theorem parse_eq_ok_iff : parse (.text s) name = .ok (label, id)
    ↔ s = label ++ "/" ++ id ∧ IsHalf label ∧ IsHalf id := by
  have hgiven : ((Value.text s).equal .null || (Value.text s).equal (.text ""))
      = decide (s = "") := by
    have hnull : (Value.text s).equal .null = false := rfl
    rw [hnull, Bool.false_or, Bool.eq_iff_iff, decide_eq_true_eq,
      Value.equal_iff_face rfl]
    simp [Value.face?]
  have hplain : (Value.text s).plain = .ok s := rfl
  unfold parse
  rw [hgiven, hplain]
  -- a text has two pieces exactly when one slash stands between two halves
  constructor
  · intro h
    by_cases hs : s = ""
    · rw [decide_eq_true hs] at h
      cases h
    · rw [decide_eq_false hs] at h
      simp only [Bool.false_eq_true, if_false, bind, Except.bind] at h
      split at h
      · next first _ second _ hpieces =>
        obtain ⟨hjoined, hfirst, hsecond⟩ := Text.pieces_eq_pair_iff.mp hpieces
        obtain ⟨rfl, rfl⟩ := Prod.mk.inj (Except.ok.inj h)
        refine ⟨?_, ⟨by simp, by simpa using hfirst⟩, by
          simp, by simpa using hsecond⟩
        rw [← String.toList_inj, hjoined]
        simp
      · cases h
  · rintro ⟨rfl, hlabel, hid⟩
    have hs : label ++ "/" ++ id ≠ "" := by
      intro hempty
      have hchars := congrArg String.toList hempty
      simp at hchars
    have hpieces : Text.pieces '/' (label ++ "/" ++ id).toList
        = [label.toList, id.toList] := by
      refine Text.pieces_eq_pair_iff.mpr ⟨by simp, hlabel.whole, hid.whole⟩
    rw [decide_eq_false hs]
    simp only [Bool.false_eq_true, if_false, bind, Except.bind, hpieces]
    cases hfirst : label.toList with
    | nil => exact absurd (String.toList_eq_nil_iff.mp hfirst) hlabel.given
    | cons c cs =>
        cases hsecond : id.toList with
        | nil => exact absurd (String.toList_eq_nil_iff.mp hsecond) hid.given
        | cons d ds =>
            show Except.ok (String.ofList (c :: cs), String.ofList (d :: ds))
                = _
            rw [← hfirst, ← hsecond, String.ofList_toList,
              String.ofList_toList]

-- ================================================================ any values

/-- There is no reference. -/
def Missing (v : Value) : Prop := v = .null ∨ v = .text ""

def missing (name : String) : Failure :=
  .ofKind .missingReference "Edge entity requires FROM and TO fields!"
    [(.text "field", .text name)]

def malformed (name : String) : Failure :=
  .ofKind .invalidReferenceFormat ("Relational field " ++ Text.upper name
    ++ " must be MODEL/ID format") [(.text "field", .text name)]

/-- What the value under the name of an end refers to: a label and an id, both
with something in them and without a slash, if its plain form is these with a
slash between them. -/
inductive Reads (name : String) (v : Value) :
    Checked (String × String) → Prop where
  | named {label id : String} (hplain : v.plain = .ok (label ++ "/" ++ id))
      (hlabel : IsHalf label) (hid : IsHalf id) :
      Reads name v (.ok (label, id))
  | missing (hmissing : Missing v) : Reads name v (.error (missing name))
  | malformed {s : String} (hgiven : ¬Missing v) (hplain : v.plain = .ok s)
      (hno : ∀ label id, s = label ++ "/" ++ id → IsHalf label → ¬IsHalf id) :
      Reads name v (.error (malformed name))
  | textless {e : Failure} (hgiven : ¬Missing v)
      (hplain : v.plain = .error e) :
      Reads name v (.error e)

private theorem missing_iff :
    (v.equal .null || v.equal (.text "")) = true ↔ Missing v := by
  have hnull : v.equal .null = true ↔ v = .null := by
    cases v with
    | null => exact iff_of_true rfl rfl
    | symbol s =>
        cases s <;> exact iff_of_false Bool.false_ne_true Value.noConfusion
    | float x =>
        cases x <;> exact iff_of_false Bool.false_ne_true Value.noConfusion
    | _ => exact iff_of_false Bool.false_ne_true Value.noConfusion
  have hempty : v.equal (.text "") = true ↔ v = .text "" := by
    rw [Value.equal_iff_face rfl]
    cases v with
    | text s => simp [Value.face?]
    | symbol s =>
        refine iff_of_false (fun h => ?_) Value.noConfusion
        cases s with
        | fieldType t => cases t <;> exact absurd h (by decide)
        | _ => cases h
    | _ => simp [Value.face?]
  rw [Bool.or_eq_true, hnull, hempty]
  rfl

/-- A value with a plain form is read as that text. -/
private theorem parse_of_plain (hgiven : ¬Missing v) (hplain : v.plain = .ok s)
    (hs : s ≠ "") :
    parse v name = parse (.text s) name := by
  have htext : ¬Missing (.text s) := by
    rintro (h | h)
    · cases h
    · exact hs (Value.text.inj h)
  rw [← missing_iff, Bool.not_eq_true] at hgiven htext
  unfold parse
  rw [hgiven, htext, hplain]
  rfl

private theorem parse_eq_malformed (hgiven : ¬Missing v)
    (hplain : v.plain = .ok s)
    (hno : ∀ label id, s = label ++ "/" ++ id → IsHalf label → ¬IsHalf id) :
    parse v name = .error (malformed name) := by
  have hunread : ∀ r, parse v name ≠ .ok r := by
    rintro ⟨label, id⟩ hread
    by_cases hs : s = ""
    · rw [← missing_iff, Bool.not_eq_true] at hgiven
      unfold parse at hread
      rw [hgiven, hplain, hs] at hread
      cases hread
    · rw [parse_of_plain hgiven hplain hs] at hread
      obtain ⟨hjoined, hlabel, hid⟩ := parse_eq_ok_iff.mp hread
      exact hno label id hjoined hlabel hid
  refine Or.resolve_left ?_ fun hread : ∃ r, parse v name = .ok r =>
    hread.elim hunread
  rw [← missing_iff, Bool.not_eq_true] at hgiven
  unfold parse
  rw [hgiven, hplain]
  simp only [Bool.false_eq_true, if_false, bind, Except.bind]
  split
  · exact .inl ⟨_, rfl⟩
  · exact .inr rfl

/-- References are read so. -/
theorem Reads.parse_eq (h : Reads name v outcome) :
    parse v name = outcome := by
  cases h with
  | @named label id hplain hlabel hid =>
      have hgiven : ¬Missing v := by
        rintro (rfl | rfl)
        · have hchars := congrArg String.toList (Except.ok.inj hplain)
          have hslash : '/' ∈ "None".toList := by
            show '/' ∈ String.toList "None"
            rw [show "None".toList = (label ++ "/" ++ id).toList from hchars]
            simp
          revert hslash
          decide
        · have hchars := congrArg String.toList (Except.ok.inj hplain)
          simp at hchars
      have hs : label ++ "/" ++ id ≠ "" := by
        intro hempty
        have hchars := congrArg String.toList hempty
        simp at hchars
      rw [parse_of_plain hgiven hplain hs]
      exact parse_eq_ok_iff.mpr ⟨rfl, hlabel, hid⟩
  | missing hmissing =>
      unfold parse
      rw [missing_iff.mpr hmissing]
      rfl
  | malformed hgiven hplain hno => exact parse_eq_malformed hgiven hplain hno
  | textless hgiven hplain =>
      rw [← missing_iff, Bool.not_eq_true] at hgiven
      unfold parse
      rw [hgiven, hplain]
      rfl

/-- Nothing is missing that is read. -/
theorem there_of_parse {es : Entries} {r : String × String}
    (h : parse (Entries.field s es) name = .ok r) :
    ∃ v, Entries.lookup? (.text s) es = some v := by
  cases hv : Entries.lookup? (.text s) es with
  | some v => exact ⟨v, rfl⟩
  | none =>
      have hnull : Entries.field s es = .null := by
        unfold Entries.field Entries.get
        rw [hv]
        rfl
      rw [hnull, (Reads.missing (.inl rfl)).parse_eq] at h
      cases h

/-- The names of the ends. -/
theorem isIn_fields {key : Value} : key.isIn fields = true ↔
    key.face? = some (.text "from") ∨ key.face? = some (.text "to") := by
  simp only [Value.isIn, fields, List.any_cons, List.any_nil, Bool.or_false,
    Bool.or_eq_true]
  rw [Value.same_iff_face' (a := .text "from") rfl,
    Value.same_iff_face' (a := .text "to") rfl]

end Reference

end GraphMapper

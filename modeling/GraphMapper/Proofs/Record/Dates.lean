/-
Whether a date is stored alike as itself and as its text.

White space around a text is taken off (`trim_between`), a final `Z` is read as
the offset that it means (`spellOutZulu_zulu`), and what is left is read back
as it was written, but for two things: the text of a date is read without an
offset although the date itself is its start at universal time, and an offset
of less than a second is read as universal time. So the two forms agree for
date-times without an offset and for those with none of these offsets, and for
nothing else (`agree_iff_kept`).

Main statement: `spelled_agrees_iff`.

Chain: `Calendar.Written` for texts that are read back, `Record.Coercion` for
what is stored.
-/
import GraphMapper.Proofs.Calendar.Written
import GraphMapper.Record.Coercion

namespace GraphMapper

-- ================================================================= statements

/-- Two date-times are equal, and both have an offset or neither has. -/
def DateTime.Agrees (a b : DateTime) : Prop :=
  a.beq b = true ∧ a.offset.isSome = b.offset.isSome

namespace Record

/-- The ISO 8601 texts of a date and of a date-time, in which a final `Z` may
stand for universal time. -/
inductive Spells : Value → String → Prop where
  | date (d : Date) : Spells (.date d) (Iso.dateText d)
  | dateTime (separator : Char) (t : DateTime) :
      Spells (.dateTime t) (Iso.text separator t)
  | zulu (separator : Char) (t : DateTime) (h : t.offset = some .utc) :
      Spells (.dateTime t)
        (Iso.text separator { t with offset := none } ++ "Z")

/-- The offset that is read from the text of a value. -/
def toldOffset : Value → Option Offset
  | .dateTime t => t.offset.map Offset.heard
  | _ => none

/-- The values whose texts say all that they are: date-times whose offset, if
there is one, is nothing or a second and more. -/
def Kept : Value → Prop
  | .dateTime t =>
      ∀ o, t.offset = some o → o.micros = 0 ∨ 1000000 ≤ o.micros.natAbs
  | _ => False

end Record

-- ================================================================ white space

namespace Text

variable {p : Char → Bool} {before cs after : List Char}

/-- The ends on which `p` holds are taken off up to characters on which it does
not. -/
private theorem trimBy_between (hbefore : ∀ c ∈ before, p c = true)
    (hafter : ∀ c ∈ after, p c = true)
    (hfirst : ∃ c rest, cs = c :: rest ∧ p c = false)
    (hlast : ∃ rest c, cs = rest ++ [c] ∧ p c = false) :
    trimBy p (before ++ (cs ++ after)) = cs := by
  obtain ⟨first, rest, hcons, hfirst⟩ := hfirst
  obtain ⟨init, last, hconcat, hlast⟩ := hlast
  have hreverse : ∀ c ∈ after.reverse, p c = true :=
    fun c hc => hafter c (List.mem_reverse.mp hc)
  have hstart : (cs ++ after).dropWhile p = cs ++ after := by
    rw [hcons, List.cons_append,
      List.dropWhile_cons_of_neg (Bool.eq_false_iff.mp hfirst)]
  have hend : cs.reverse.dropWhile p = cs.reverse := by
    rw [hconcat, List.reverse_append, List.reverse_singleton,
      List.singleton_append,
      List.dropWhile_cons_of_neg (Bool.eq_false_iff.mp hlast)]
  unfold trimBy
  rw [List.dropWhile_append_of_pos hbefore, hstart, List.reverse_append,
    List.dropWhile_append_of_pos hreverse, hend, List.reverse_reverse]

private theorem isBlank_digit {c : Char} (h : Iso.isDigit c = true) :
    isBlank c = false := by
  have hbounds := Iso.isDigit_bounds h
  simp [isBlank, inRanges, blankRanges]
  omega

end Text

namespace Record

open Iso

variable {v : Value} {s before after : String}

private theorem spellOutZulu_of_digit (h : EndsWithDigit s) :
    spellOutZulu s = s := by
  obtain ⟨cs, c, hs, hdigit⟩ := h
  unfold spellOutZulu
  rw [hs, List.reverse_append, List.reverse_singleton, List.singleton_append]
  split
  · next hzulu =>
      obtain rfl := (List.cons.inj hzulu).1
      cases hdigit
  · rfl

theorem spellOutZulu_zulu (s : String) :
    spellOutZulu (s ++ "Z") = s ++ "+00:00" := by
  unfold spellOutZulu
  rw [String.toList_append, List.reverse_append]
  show String.ofList s.toList.reverse.reverse ++ "+00:00" = _
  rw [List.reverse_reverse, String.ofList_toList]

/-- The text of a value starts and ends with what is not white space. -/
theorem Spells.ends (h : Spells v s) :
    (∃ c rest, s.toList = c :: rest ∧ Text.isBlank c = false) ∧ ∃ rest c,
      s.toList = rest ++ [c] ∧ Text.isBlank c = false := by
  have hfirst : ∀ {t : String}, StartsWithDigit t →
      ∃ c rest, t.toList = c :: rest ∧ Text.isBlank c = false := by
    rintro t ⟨c, rest, ht, hdigit⟩
    exact ⟨c, rest, ht, Text.isBlank_digit hdigit⟩
  have hlast : ∀ {t : String}, EndsWithDigit t →
      ∃ rest c, t.toList = rest ++ [c] ∧ Text.isBlank c = false := by
    rintro t ⟨rest, c, ht, hdigit⟩
    exact ⟨rest, c, ht, Text.isBlank_digit hdigit⟩
  cases h with
  | date d =>
      exact ⟨hfirst (startsWithDigit_dateText d),
        hlast (endsWithDigit_dateText d)⟩
  | dateTime separator t =>
      exact ⟨hfirst (startsWithDigit_text separator t),
        hlast (endsWithDigit_text separator t)⟩
  | zulu separator t h =>
      exact ⟨hfirst ((startsWithDigit_text separator _).append "Z"), _, 'Z',
        String.toList_append, rfl⟩

/-- The white space around the text of a value is taken off. -/
theorem Spells.trim (h : Spells v s)
    (hbefore : ∀ c ∈ before.toList, Text.isBlank c = true)
    (hafter : ∀ c ∈ after.toList, Text.isBlank c = true) :
    Text.trim (before ++ s ++ after) = s := by
  unfold Text.trim
  rw [String.toList_append, String.toList_append, List.append_assoc,
    Text.trimBy_between hbefore hafter h.ends.1 h.ends.2, String.ofList_toList]

-- ==================================================================== reading

/-- With universal time written out, the mark for it is gone. -/
private theorem text_utc (separator : Char) {t : DateTime}
    (h : t.offset = some .utc) :
    Iso.text separator { t with offset := none } ++ "+00:00"
      = Iso.text separator t := by
  have hutc : offsetText .utc = "+00:00" := by decide
  unfold Iso.text
  rw [h]
  show _ ++ "" ++ "+00:00" = _ ++ offsetText .utc
  rw [String.append_empty, hutc]

/-- The text of a value is read as the date-time that the value is stored as,
but for its offset. -/
theorem Spells.read (h : Spells v s) :
    ∃ direct, toDateTime v = .ok (.dateTime direct) ∧ read? (spellOutZulu s)
      = some { direct with offset := toldOffset v } := by
  cases h with
  | date d =>
      refine ⟨.ofDate d, rfl, ?_⟩
      rw [spellOutZulu_of_digit (endsWithDigit_dateText d), read?_dateText]
      rfl
  | dateTime separator t =>
      refine ⟨t, rfl, ?_⟩
      rw [spellOutZulu_of_digit (endsWithDigit_text separator t), read?_text]
      rfl
  | zulu separator t h =>
      refine ⟨t, rfl, ?_⟩
      rw [spellOutZulu_zulu, text_utc separator h, read?_text]
      rfl

private theorem toDateTime_of_read {t : DateTime}
    (h : read? (spellOutZulu (Text.trim s)) = some t) :
    toDateTime (.text s) = .ok (.dateTime t) := by
  simp only [toDateTime, Value.text?, Option.bind_some, h]

-- ================================================================== agreement

private theorem heard_micros_iff (o : Offset) :
    o.heard.micros = o.micros ↔ o.micros = 0 ∨ 1000000 ≤ o.micros.natAbs := by
  unfold Offset.heard
  split_ifs with hshort
  · show (0 : Int) = o.micros ↔ _
    omega
  · exact iff_of_true rfl (.inr (Nat.le_of_not_lt hshort))

/-- A date-time agrees with what is left of it when its offset is. -/
private theorem agrees_heard_iff (t : DateTime) :
    t.Agrees { t with offset := t.offset.map Offset.heard } ↔ ∀ o,
      t.offset = some o → o.micros = 0 ∨ 1000000 ≤ o.micros.natAbs := by
  obtain ⟨date, time, offset⟩ := t
  cases offset with
  | none =>
      refine iff_of_true ⟨?_, rfl⟩ (fun o ho => by cases ho)
      simp [DateTime.beq, DateTime.instant?]
  | some o =>
      have hequal : DateTime.beq ⟨date, time, some o⟩ ⟨date, time,
          some o.heard⟩ = true ↔ o.heard.micros = o.micros := by
        simp only [DateTime.beq, DateTime.instant?, DateTime.wallMicros,
          Option.map_some, beq_iff_eq]
        omega
      unfold DateTime.Agrees
      simp only [Option.map_some, Option.isSome_some, and_true, hequal,
        heard_micros_iff, Option.some.injEq, forall_eq']

/-- A date agrees with no date-time that has no offset. -/
private theorem not_agrees_date (d : Date) :
    ¬DateTime.Agrees (.ofDate d) { DateTime.ofDate d with offset := none } :=
  fun h => Bool.false_ne_true h.1

/-- Dates and date-times are stored alike as themselves and as their ISO 8601
texts, with white space around them or without, just when the text says all
that they are: not for a date, whose text is read without an offset, nor for a
date-time whose offset is less than a second and not nothing, which is read as
universal time. All else is read as it is. -/
theorem spelled_agrees_iff (h : Spells v s)
    (hbefore : ∀ c ∈ before.toList, Text.isBlank c = true)
    (hafter : ∀ c ∈ after.toList, Text.isBlank c = true) :
    ∃ direct read, toDateTime v = .ok (.dateTime direct) ∧
      toDateTime (.text (before ++ s ++ after)) = .ok (.dateTime read) ∧
      read = { direct with offset := toldOffset v } ∧
      (direct.Agrees read ↔ Kept v) := by
  obtain ⟨direct, hdirect, hread⟩ := h.read
  rw [← h.trim hbefore hafter] at hread
  refine ⟨direct, { direct with offset := toldOffset v }, hdirect,
    toDateTime_of_read hread, rfl, ?_⟩
  cases h with
  | date d =>
      cases hdirect
      exact iff_of_false (not_agrees_date d) id
  | dateTime separator t =>
      cases hdirect
      exact agrees_heard_iff direct
  | zulu separator t h =>
      cases hdirect
      exact agrees_heard_iff direct

/-- The last microsecond before a leap day ends, by a clock that is more than
five hours behind, is read from its text between a tabulator and a no-break
space. -/
theorem spelled_agrees_leap :
    toDateTime (.text "\t2020-02-29 23:59:59.999999-05:30:00.000001\u00a0")
      = .ok (.dateTime ⟨⟨2020, 2, 29, by decide⟩, ⟨23, 59, 59, 999999⟩,
        some ⟨-19800000001, by decide⟩⟩) := by
  have hspells :
      Spells (.dateTime ⟨⟨2020, 2, 29, by decide⟩, ⟨23, 59, 59, 999999⟩,
        some ⟨-19800000001, by decide⟩⟩)
          "2020-02-29 23:59:59.999999-05:30:00.000001" := .dateTime ' ' _
  have htab : ∀ c ∈ "\t".toList, Text.isBlank c = true :=
    List.all_eq_true.mp (by decide)
  have hspace : ∀ c ∈ "\u00a0".toList, Text.isBlank c = true :=
    List.all_eq_true.mp (by decide)
  obtain ⟨direct, read, hdirect, hread, rfl, -⟩ :=
    spelled_agrees_iff hspells htab hspace
  cases hdirect
  exact hread

end Record

end GraphMapper

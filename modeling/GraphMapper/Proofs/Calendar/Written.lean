/-
That the ISO 8601 text of a date or of a date-time is read back as what it
writes.

The numbers of a text are written with the digits that there is room for, so
each is read off by its width (`takeNumber_padded`) and a mark follows it or
nothing. From there on reading goes along the text: a date
(`readDateOf_dateText`), a clock with or without seconds (`readClock?_long`,
`readClock?_short`), an offset (`readOffset?_offsetText`), a time up to its
offset (`readTime?_text`). A separator may be any character, since its octets
are skipped as a whole.

One thing is not read back: an offset of less than a second comes out as
universal time (`Offset.heard`).

# Reading along the text

A lemma about a reader says what it gives on what the writer has written
followed by any rest, so the lemmas compose in the order in which the text is
read. The rest is never looked into: it is told apart by a mark, or by the
width of a number, or it is empty.

Two facts are about all of a text and not about its parts. It is made of
characters of one octet but for the separator (`IsAscii`), so places in octets
are places in characters; and it starts and ends with a digit, so that it
stands when blanks are cut off.

Main statements: `read?_text`, `read?_dateText`.

Chain: `Ordinal` has the calendar; `Record.Dates` reads these texts as values
of fields.
-/
import GraphMapper.Calendar.Iso
import Mathlib.Data.List.Basic
import Mathlib.Tactic.SplitIfs

namespace GraphMapper

/-- An offset as its text is read: in the whole seconds of less than one there
is none. -/
def Offset.heard (o : Offset) : Offset :=
  if o.micros.natAbs < 1000000 then .utc else o

namespace Iso

variable {n width : Nat} {c : Char} {cs rest : List Char}

-- ==================================================================== digits

/-- A decimal digit is one of ten characters in a row. -/
theorem isDigit_bounds (h : isDigit c = true) :
    48 ≤ c.toNat ∧ c.toNat ≤ 57 := by
  simpa [isDigit, Char.le_def, UInt32.le_iff_toNat_le] using h

/-- A padded number is zeros and the digits of the number. -/
private theorem toList_padded (width n : Nat) : (Text.padded width n).toList
    = List.replicate (width - (Nat.toDigits 10 n).length) '0'
      ++ Nat.toDigits 10 n :=
  String.toList_ofList

/-- There is nothing but digits in it. -/
private theorem isDigit_of_mem_padded (h : c ∈ (Text.padded width n).toList) :
    isDigit c = true := by
  rw [toList_padded, List.mem_append] at h
  rcases h with hzero | hdigit
  · rw [List.eq_of_mem_replicate hzero]
    rfl
  · exact Nat.isDigit_of_mem_toDigits (by decide) (by decide) hdigit

/-- It has the width that it is padded to, if the number fits there. -/
private theorem length_padded (width : Nat) (hwidth : 0 < width)
    (hn : n < Nat.pow 10 width) :
    (Text.padded width n).toList.length = width := by
  have hfits : (Nat.toDigits 10 n).length ≤ width :=
    (Nat.length_toDigits_le_iff (by decide) hwidth).mpr hn
  rw [toList_padded, List.length_append, List.length_replicate]
  exact Nat.sub_add_cancel hfits

/-- Digits are read as the number that they write, after what has been read
already. -/
private theorem takeNumber_append (h : ∀ c ∈ cs, isDigit c = true)
    (value : Nat) (rest : List Char) :
    takeNumber cs.length value (cs ++ rest)
      = some (Nat.ofDigitChars 10 cs value, rest) := by
  induction cs generalizing value with
  | nil => rfl
  | cons c cs ih =>
      rw [List.forall_mem_cons] at h
      rw [Nat.ofDigitChars_cons, ← ih h.2]
      exact if_pos h.1

/-- A number that fits into its width is read off a text that starts with
it. -/
theorem takeNumber_padded (width : Nat) (hwidth : 0 < width)
    (hn : n < Nat.pow 10 width) (rest : List Char) :
    takeNumber width 0 ((Text.padded width n).toList ++ rest)
      = some (n, rest) := by
  have hvalue : Nat.ofDigitChars 10 (Text.padded width n).toList 0 = n := by
    rw [toList_padded, Nat.ofDigitChars_append,
      Nat.ofDigitChars_replicate_zero, Nat.mul_zero]
    exact Nat.ofDigitChars_toDigits (by decide) (by decide)
  have hdigits : ∀ c ∈ (Text.padded width n).toList, isDigit c = true :=
    fun _ => isDigit_of_mem_padded
  have hread := takeNumber_append hdigits 0 rest
  rwa [length_padded width hwidth hn, hvalue] at hread

/-- A number of two digits is a digit with another character behind it. -/
private theorem padded_two (hn : n < 100) :
    ∃ first second, (Text.padded 2 n).toList = [first, second] ∧
      isDigit first = true := by
  have hlength : (Text.padded 2 n).toList.length = 2 :=
    length_padded 2 (by decide) hn
  have hdigits : ∀ c ∈ (Text.padded 2 n).toList, isDigit c = true :=
    fun _ => isDigit_of_mem_padded
  obtain ⟨first, second, htwo⟩ := List.length_eq_two.mp hlength
  exact ⟨first, second, htwo, hdigits first (by simp [htwo])⟩

/-- At least one digit is written of any number. -/
private theorem padded_ne_nil (width n : Nat) :
    (Text.padded width n).toList ≠ [] := by
  rw [toList_padded]
  exact List.append_ne_nil_of_right_ne_nil _
    (List.ne_nil_of_length_pos Nat.length_toDigits_pos)

-- ===================================================================== dates

/-- The text of a date by its characters. -/
private theorem toList_dateText (d : Date) :
    (dateText d).toList = (Text.padded 4 d.year).toList ++ '-'
      :: ((Text.padded 2 d.month).toList ++ '-'
        :: (Text.padded 2 d.day).toList) := by
  simp [dateText]

/-- The parts of a date fit into their places. -/
private theorem parts_lt (d : Date) :
    d.year < 10000 ∧ d.month < 100 ∧ d.day < 100 := by
  obtain ⟨-, hyear, -, hmonth, -, hday⟩ := d.valid
  have hdays : Calendar.daysInMonth d.year d.month ≤ 31 := by
    unfold Calendar.daysInMonth
    split_ifs <;> decide
  omega

/-- Years have four digits, so every date has ten characters. -/
private theorem length_dateText (d : Date) :
    (dateText d).toList.length = 10 := by
  obtain ⟨hyear, hmonth, hday⟩ := parts_lt d
  simp [toList_dateText, length_padded 4 (by decide) hyear,
    length_padded 2 (by decide) hmonth, length_padded 2 (by decide) hday]

/-- A character at a place is found behind anything of that length. -/
private theorem hasAt_append {before : List Char} {i : Nat}
    (h : before.length = i) (p : Char → Bool) :
    hasAt (before ++ c :: rest) i p = p c := by
  subst h
  simp [hasAt]

/-- The dashes of a date tell its length. -/
private theorem dateLength?_dateText (d : Date) (rest : List Char) :
    dateLength? ((dateText d).toList ++ rest) = some 10 := by
  obtain ⟨hyear, hmonth, -⟩ := parts_lt d
  obtain ⟨first, second, htwo, hdigit⟩ := padded_two hmonth
  have hfour : (Text.padded 4 d.year).toList.length = 4 :=
    length_padded 4 (by decide) hyear
  have hlength : ((dateText d).toList ++ rest).length ≠ 7 := by
    rw [List.length_append, length_dateText]
    omega
  have hdash : hasAt ((dateText d).toList ++ rest) 4 (· = '-') = true := by
    rw [toList_dateText, List.append_assoc, List.cons_append,
      hasAt_append hfour]
    rfl
  have hmark : hasAt ((dateText d).toList ++ rest) 5 (· = 'W') = false := by
    rw [toList_dateText, htwo, List.append_assoc, List.cons_append,
      List.append_cons]
    refine (hasAt_append (by simp [hfour]) _).trans (decide_eq_false ?_)
    rintro rfl
    cases hdigit
  unfold dateLength?
  simp only [hlength, hdash, hmark, if_true, if_false, Bool.false_eq_true]

/-- The first ten characters are read as the date, whatever follows. -/
theorem readDateOf_dateText (d : Date) (rest : List Char) :
    readDateOf 10 ((dateText d).toList ++ rest) = some d := by
  obtain ⟨hyear, hmonth, hday⟩ := parts_lt d
  obtain ⟨first, second, htwo, hdigit⟩ := padded_two hmonth
  have hmonthRead := takeNumber_padded 2 (by decide) hmonth
    ('-' :: ((Text.padded 2 d.day).toList ++ rest))
  have hparts : Date.ofParts? d.year d.month d.day = some d := dif_pos d.valid
  have hdash : ∀ cs, hasAt ('-' :: cs) 0 (· = '-') = true := fun _ => rfl
  have hafter : ∀ cs, afterDash? true ('-' :: cs) = some cs := fun _ => rfl
  rw [htwo] at hmonthRead
  simp only [toList_dateText, htwo, List.append_assoc, List.cons_append,
    List.nil_append] at hmonthRead ⊢
  unfold readDateOf
  simp only [takeNumber_padded 4 (by decide) hyear, hdash, hafter,
    Option.bind_eq_bind, Option.bind_some]
  -- a month starts with a digit, so it is not taken for a week
  split
  · next week hweek =>
      obtain rfl : first = 'W' := (List.cons.inj hweek).1
      cases hdigit
  · simp only [hmonthRead, hafter, takeNumber_padded 2 (by decide) hday,
      Option.bind_some, hparts]

-- ==================================================================== clocks

/-- A colon is followed by another part. -/
private theorem afterPart?_colon (h : cs ≠ []) :
    afterPart? true (':' :: cs) = some (.part cs) := by
  obtain ⟨c, cs, rfl⟩ := List.exists_cons_of_ne_nil h
  rfl

/-- Behind the seconds the text ends, or goes on with a fraction. -/
private theorem afterPart?_fractionText (colons : Bool) (micro : Nat) :
    afterPart? colons (fractionText micro).toList
      = some (if micro = 0 then .done true
        else .fraction (Text.padded 6 micro).toList) := by
  unfold fractionText
  by_cases hzero : micro = 0
  · rw [if_pos hzero, if_pos hzero]
    rfl
  · rw [if_neg hzero, if_neg hzero, String.toList_append]
    obtain ⟨c, cs, hdigits⟩ :=
      List.exists_cons_of_ne_nil (padded_ne_nil 6 micro)
    rw [hdigits]
    cases colons <;> rfl

/-- Six digits are the microseconds. -/
private theorem readFraction?_padded (hour minute second : Nat) {micro : Nat}
    (hmicro : micro < 1000000) :
    readFraction? hour minute second (Text.padded 6 micro).toList
      = some ⟨hour, minute, second, micro, true⟩ := by
  have hread := takeNumber_padded 6 (by decide) hmicro []
  rw [List.append_nil] at hread
  unfold readFraction?
  simp only [length_padded 6 (by decide) hmicro, Nat.min_self, hread,
    Option.map_some]
  simp [atEnd]

/-- Hours and minutes, as an offset without seconds has them. -/
theorem readClock?_short {hour minute : Nat} (hhour : hour < 100)
    (hminute : minute < 100) :
    readClock? ((Text.padded 2 hour).toList ++ ':'
      :: (Text.padded 2 minute).toList) = some ⟨hour, minute, 0, 0, true⟩ := by
  have hread := takeNumber_padded 2 (by decide) hminute []
  rw [List.append_nil] at hread
  unfold readClock?
  simp only [takeNumber_padded 2 (by decide) hhour, Option.bind_eq_bind,
    Option.bind_some]
  rw [show hasAt (':' :: (Text.padded 2 minute).toList) 0 (· = ':')
    = true from rfl, afterPart?_colon (padded_ne_nil 2 minute)]
  simp only [Option.bind_some, hread]
  rfl

/-- Hours, minutes, seconds and the fraction if there is one. -/
theorem readClock?_long {hour minute second micro : Nat} (hhour : hour < 100)
    (hminute : minute < 100) (hsecond : second < 100)
    (hmicro : micro < 1000000) :
    readClock? ((Text.padded 2 hour).toList ++ ':'
        :: ((Text.padded 2 minute).toList ++ ':'
          :: ((Text.padded 2 second).toList ++ (fractionText micro).toList)))
      = some ⟨hour, minute, second, micro, true⟩ := by
  have hrest : (Text.padded 2 minute).toList ++
      ':' :: ((Text.padded 2 second).toList ++ (fractionText micro).toList)
        ≠ [] :=
    List.append_ne_nil_of_left_ne_nil (padded_ne_nil 2 minute) _
  have hlast : (Text.padded 2 second).toList ++ (fractionText micro).toList
      ≠ [] :=
    List.append_ne_nil_of_left_ne_nil (padded_ne_nil 2 second) _
  unfold readClock?
  simp only [takeNumber_padded 2 (by decide) hhour, Option.bind_eq_bind,
    Option.bind_some]
  rw [show ∀ cs, hasAt (':' :: cs) 0 (· = ':') = true from fun _ => rfl,
    afterPart?_colon hrest]
  simp only [takeNumber_padded 2 (by decide) hminute, Option.bind_some,
    afterPart?_colon hlast, takeNumber_padded 2 (by decide) hsecond]
  rw [afterPart?_fractionText]
  by_cases hzero : micro = 0
  · simp only [hzero, if_true, Option.bind_some]
  · simp only [hzero, if_false, Option.bind_some,
      readFraction?_padded hour minute second hmicro]

-- =================================================================== offsets

/-- An offset is a sign and a clock reading. -/
private theorem readClock?_offsetText (o : Offset) :
    ∃ sign clock, (offsetText o).toList = sign :: clock ∧
      sign = (if o.micros < 0 then '-' else '+') ∧
      readClock? clock = some ⟨o.micros.natAbs / 1000000 / 3600,
        o.micros.natAbs / 1000000 / 60 % 60, o.micros.natAbs / 1000000 % 60,
        o.micros.natAbs % 1000000, true⟩ := by
  have hbound := o.bounded
  unfold offsetText
  generalize o.micros.natAbs = n at hbound ⊢
  have hhour : n / 1000000 / 3600 < 100 := by omega
  have hminute : n / 1000000 / 60 % 60 < 100 := by omega
  have hsecond : n / 1000000 % 60 < 100 := by omega
  have hmicro : n % 1000000 < 1000000 := Nat.mod_lt _ (by decide)
  have hsign : (if o.micros < 0 then "-" else "+").toList
      = [if o.micros < 0 then '-' else '+'] := by
    split_ifs <;> rfl
  by_cases hwhole : n / 1000000 % 60 = 0 ∧ n % 1000000 = 0
  · refine ⟨_, (Text.padded 2 (n / 1000000 / 3600)).toList ++ ':' ::
      (Text.padded 2 (n / 1000000 / 60 % 60)).toList, ?_, rfl, ?_⟩
    · simp [hsign, hwhole]
    · rw [readClock?_short hhour hminute, hwhole.1, hwhole.2]
  · refine ⟨_, (Text.padded 2 (n / 1000000 / 3600)).toList ++ ':' ::
      ((Text.padded 2 (n / 1000000 / 60 % 60)).toList ++ ':'
        :: ((Text.padded 2 (n / 1000000 % 60)).toList ++
        (fractionText (n % 1000000)).toList)), ?_, rfl,
        readClock?_long hhour hminute hsecond hmicro⟩
    simp [hsign, hwhole]

/-- What is lost of an offset when it is read is one of less than a second. -/
theorem readOffset?_offsetText (o : Offset) :
    readOffset? (offsetText o).toList = some o.heard := by
  obtain ⟨sign, clock, htext, hsign, hclock⟩ := readClock?_offsetText o
  have hmark : sign ≠ 'Z' := by
    rw [hsign]
    split_ifs <;> decide
  have hseconds : o.micros.natAbs / 1000000 / 3600 * 3600
      + o.micros.natAbs / 1000000 / 60 % 60 * 60
        + o.micros.natAbs / 1000000 % 60 = o.micros.natAbs / 1000000 := by
          omega
  have hvalue :
      (if sign = '-' then -(((o.micros.natAbs / 1000000 : Nat) : Int) * 1000000
        + (o.micros.natAbs % 1000000 : Nat))
          else ((o.micros.natAbs / 1000000 : Nat) : Int) * 1000000
      + (o.micros.natAbs % 1000000 : Nat)) = o.micros := by
    by_cases hnegative : o.micros < 0
    · rw [hsign, if_pos hnegative, if_pos rfl]
      omega
    · rw [hsign, if_neg hnegative, if_neg (by decide)]
      omega
  rw [htext]
  unfold readOffset?
  split
  · next h => cases h
  · next h => exact absurd (List.cons.inj h).1 hmark
  · next h =>
      cases h
      simp only [hclock, Option.bind_eq_bind, Option.bind_some, hseconds,
        hvalue, Bool.not_true, Bool.false_eq_true, if_false]
      -- whether there is an offset is told by its whole seconds
      by_cases hshort : o.micros.natAbs < 1000000
      · rw [Offset.heard, if_pos hshort, if_pos (Nat.div_eq_of_lt hshort)]
      · have hlong : o.micros.natAbs / 1000000 ≠ 0 := by omega
        rw [Offset.heard, if_neg hshort, if_neg hlong]
        exact dif_pos o.bounded

-- ===================================================================== times

/-- A fraction is a point and digits, or nothing. -/
private theorem mem_fractionText {micro : Nat}
    (h : c ∈ (fractionText micro).toList) : isDigit c = true ∨ c = '.' := by
  unfold fractionText at h
  split_ifs at h
  · cases h
  · rw [String.toList_append, List.mem_append] at h
    rcases h with hpoint | hdigit
    · exact .inr (List.mem_singleton.mp hpoint)
    · exact .inl (isDigit_of_mem_padded hdigit)

/-- The text of a time by its characters. -/
private theorem toList_timeText (t : TimeOfDay) :
    (timeText t).toList = (Text.padded 2 t.hour.val).toList ++ ':'
      :: ((Text.padded 2 t.minute.val).toList ++ ':'
        :: ((Text.padded 2 t.second.val).toList
          ++ (fractionText t.micro.val).toList)) := by
  simp [timeText]

/-- A time has digits, colons and a point, and so no sign that could begin an
offset. -/
private theorem mem_timeText {t : TimeOfDay} (h : c ∈ (timeText t).toList) :
    isDigit c = true ∨ c = ':' ∨ c = '.' := by
  simp only [toList_timeText, List.mem_append, List.mem_cons] at h
  rcases h with hhour | rfl | hminute | rfl | hsecond | hfraction
  · exact .inl (isDigit_of_mem_padded hhour)
  · exact .inr (.inl rfl)
  · exact .inl (isDigit_of_mem_padded hminute)
  · exact .inr (.inl rfl)
  · exact .inl (isDigit_of_mem_padded hsecond)
  · exact (mem_fractionText hfraction).imp_right .inr

/-- No offset starts within a time. -/
private theorem startsOffset_of_mem_timeText {t : TimeOfDay}
    (h : c ∈ (timeText t).toList) :
    startsOffset c = false := by
  rcases mem_timeText h with hdigit | rfl | rfl
  · have hbounds := isDigit_bounds hdigit
    have hother : ∀ mark : Char, mark.toNat < 48 ∨ 57 < mark.toNat →
        c ≠ mark := by
      rintro mark houtside rfl
      omega
    simp [startsOffset, hother '+' (by decide), hother '-' (by decide),
      hother 'Z' (by decide)]
  · rfl
  · rfl

/-- A time is read back as what it writes, with its fraction or without. -/
private theorem readClock?_timeText (t : TimeOfDay) :
    readClock? (timeText t).toList
    = some ⟨t.hour.val, t.minute.val, t.second.val, t.micro.val, true⟩ := by
  have hhour := t.hour.isLt
  have hminute := t.minute.isLt
  have hsecond := t.second.isLt
  rw [toList_timeText]
  exact readClock?_long (by omega) (by omega) (by omega) t.micro.isLt

/-- A time is read up to its offset, and both are as they are written. -/
theorem readTime?_text (t : TimeOfDay) (offset : Option Offset) :
    readTime? ((timeText t).toList ++ ((offset.map offsetText).getD "").toList)
      = some (t, offset.map Offset.heard) := by
  have hparts : TimeOfDay.ofParts? t.hour.val t.minute.val t.second.val
      t.micro.val = some t :=
    dif_pos ⟨t.hour.isLt, t.minute.isLt, t.second.isLt, t.micro.isLt⟩
  have htime : ∀ c ∈ (timeText t).toList, (!startsOffset c) = true :=
      fun c hc => by
    rw [startsOffset_of_mem_timeText hc]
    rfl
  unfold readTime?
  rw [List.takeWhile_append_of_pos htime, List.dropWhile_append_of_pos htime]
  cases offset with
  | none =>
      simp only [Option.map_none, Option.getD_none, String.toList_empty,
        List.takeWhile_nil, List.dropWhile_nil, List.append_nil,
        readClock?_timeText, Option.bind_eq_bind, Option.bind_some, hparts,
        if_true, Option.map_some]
  | some o =>
      obtain ⟨sign, clock, htext, hsign, -⟩ := readClock?_offsetText o
      have hstarts : (!startsOffset sign) = false := by
        rw [hsign]
        split_ifs <;> rfl
      have hread := readOffset?_offsetText o
      rw [htext] at hread
      simp only [Option.map_some, Option.getD_some, htext, List.takeWhile_cons,
        List.dropWhile_cons, hstarts, Bool.false_eq_true, if_false,
        List.append_nil, readClock?_timeText, Option.bind_eq_bind,
        Option.bind_some, hparts, hread]

-- ==================================================================== places

/-- All characters of a text take one place. -/
def IsAscii (s : String) : Prop := ∀ c ∈ s.toList, c.toNat < 128

instance (s : String) : Decidable (IsAscii s) :=
  decidable_of_iff (s.toList.all fun c => decide (c.toNat < 128))
    (by simp [IsAscii])

/-- Two such texts make one such text. -/
theorem IsAscii.append {s t : String} (hs : IsAscii s) (ht : IsAscii t) :
    IsAscii (s ++ t) := by
  intro c hc
  rw [String.toList_append, List.mem_append] at hc
  exact hc.elim (hs c) (ht c)

/-- Digits have codes of one octet. -/
private theorem isAscii_padded (width n : Nat) :
    IsAscii (Text.padded width n) := by
  intro c hc
  have hbounds := isDigit_bounds (isDigit_of_mem_padded hc)
  omega

/-- So has a point. -/
private theorem isAscii_fractionText (micro : Nat) :
    IsAscii (fractionText micro) := by
  unfold fractionText
  split_ifs
  · decide
  · exact IsAscii.append (by decide) (isAscii_padded 6 micro)

/-- The text of a date has no character of more octets. -/
private theorem isAscii_dateText (d : Date) : IsAscii (dateText d) :=
  ((((isAscii_padded 4 d.year).append (by decide)).append
    (isAscii_padded 2 d.month)).append (by decide)).append
      (isAscii_padded 2 d.day)

/-- Neither has that of a time. -/
private theorem isAscii_timeText (t : TimeOfDay) : IsAscii (timeText t) :=
  (((((isAscii_padded 2 _).append (by decide)).append
    (isAscii_padded 2 _)).append (by decide)).append
      (isAscii_padded 2 _)).append (isAscii_fractionText _)

/-- Nor that of an offset. -/
private theorem isAscii_offsetText (o : Offset) : IsAscii (offsetText o) := by
  have hsign : IsAscii (if o.micros < 0 then "-" else "+") := by
    split_ifs <;> decide
  unfold offsetText
  refine (((hsign.append (isAscii_padded 2 _)).append (by decide)).append
    (isAscii_padded 2 _)).append ?_
  split_ifs
  · decide
  · exact (IsAscii.append (by decide) (isAscii_padded 2 _)).append
      (isAscii_fractionText _)

/-- A text takes as many places as its form has octets. -/
private theorem spread_eq (cs : List Char) :
    spread cs = cs.flatMap fun c => List.replicate c.utf8Size c := by
  unfold spread
  congr
  funext c
  split_ifs with hascii
  · have hone : c.utf8Size = 1 := by
      rw [Char.utf8Size_eq_one_iff, UInt32.le_iff_toNat_le]
      exact Nat.le_of_lt_succ hascii
    rw [hone]
    rfl
  · rfl

/-- A text of such characters takes as many octets as it has characters. -/
private theorem spread_of_ascii (h : ∀ c ∈ cs, c.toNat < 128) :
    spread cs = cs := by
  induction cs with
  | nil => rfl
  | cons c cs ih =>
      rw [List.forall_mem_cons] at h
      show (if c.toNat < 128 then [c] else _) ++ spread cs = _
      rw [if_pos h.1, ih h.2]
      rfl

/-- A character among those of one place keeps its own behind it. -/
private theorem spread_between (separator : Char)
    (hbefore : ∀ c ∈ cs, c.toNat < 128)
    (hafter : ∀ c ∈ rest, c.toNat < 128) : spread (cs ++ separator :: rest)
      = cs ++ separator :: (List.replicate (separator.utf8Size - 1) separator
        ++ rest) := by
  have hplaces : spread (cs ++ separator :: rest)
      = spread cs ++ (List.replicate separator.utf8Size separator
        ++ spread rest) := by
    simp only [spread_eq, List.flatMap_append, List.flatMap_cons]
  obtain ⟨k, hsize⟩ : ∃ k, separator.utf8Size = k + 1 :=
    Nat.exists_eq_succ_of_ne_zero (Nat.ne_of_gt separator.utf8Size_pos)
  rw [hplaces, spread_of_ascii hbefore, spread_of_ascii hafter, hsize]
  rfl

-- =============================================================== whole texts

/-- The text of a date-time by its characters: a date, a separator, a time, and
an offset if there is one. -/
private theorem toList_text (separator : Char) (t : DateTime) :
    (text separator t).toList = (dateText t.date).toList ++
      separator :: ((timeText t.time).toList
        ++ ((t.offset.map offsetText).getD "").toList) := by
  simp [text]

/-- A date-time is read back, whatever character separates its date from its
time, but for an offset of less than a second. -/
theorem read?_text (separator : Char) (t : DateTime) :
    read? (text separator t)
      = some { t with offset := t.offset.map Offset.heard } := by
  have hrest :
      IsAscii (timeText t.time ++ (t.offset.map offsetText).getD "") := by
    refine (isAscii_timeText t.time).append ?_
    cases t.offset with
    | none => exact (by decide : IsAscii "")
    | some o => exact isAscii_offsetText o
  unfold IsAscii at hrest
  rw [String.toList_append] at hrest
  unfold read?
  rw [toList_text, spread_between separator (isAscii_dateText t.date) hrest]
  simp only [dateLength?_dateText, readDateOf_dateText, Option.bind_eq_bind,
    Option.bind_some]
  rw [List.drop_left' (length_dateText t.date)]
  simp only [List.drop_left' List.length_replicate, readTime?_text,
    Option.bind_some]

/-- The text of a date alone is read as its midnight, without an offset. -/
theorem read?_dateText (d : Date) :
    read? (dateText d) = some ⟨d, .midnight, none⟩ := by
  have hlength := dateLength?_dateText d []
  have hdate := readDateOf_dateText d []
  rw [List.append_nil] at hlength hdate
  have hend : (dateText d).toList.drop 10 = [] :=
    List.drop_of_length_le (Nat.le_of_eq (length_dateText d))
  unfold read?
  simp only [spread_of_ascii (isAscii_dateText d), hlength, hdate,
    Option.bind_eq_bind, Option.bind_some, hend]

-- ====================================================================== ends

/-- A digit is the first character. -/
def StartsWithDigit (s : String) : Prop :=
  ∃ c cs, s.toList = c :: cs ∧ isDigit c = true

/-- A digit is the last character. -/
def EndsWithDigit (s : String) : Prop :=
  ∃ cs c, s.toList = cs ++ [c] ∧ isDigit c = true

/-- What is written behind a text leaves its first character. -/
theorem StartsWithDigit.append {s : String} (h : StartsWithDigit s)
    (t : String) :
    StartsWithDigit (s ++ t) := by
  obtain ⟨c, cs, hs, hdigit⟩ := h
  exact ⟨c, cs
    ++ t.toList, by rw [String.toList_append, hs, List.cons_append], hdigit⟩

/-- What is written in front leaves its last one. -/
theorem EndsWithDigit.append {t : String} (h : EndsWithDigit t) (s : String) :
    EndsWithDigit (s ++ t) := by
  obtain ⟨cs, c, ht, hdigit⟩ := h
  exact ⟨s.toList ++ cs,
    c, by rw [String.toList_append, ht, List.append_assoc], hdigit⟩

/-- A padded number starts with a digit. -/
private theorem startsWithDigit_padded (width n : Nat) :
    StartsWithDigit (Text.padded width n) := by
  obtain ⟨c, cs, h⟩ := List.exists_cons_of_ne_nil (padded_ne_nil width n)
  exact ⟨c, cs, h, isDigit_of_mem_padded (h ▸ List.mem_cons_self)⟩

/-- And ends with one. -/
private theorem endsWithDigit_padded (width n : Nat) :
    EndsWithDigit (Text.padded width n) :=
  have h := padded_ne_nil width n
  ⟨_, _, (List.dropLast_append_getLast h).symm,
    isDigit_of_mem_padded (List.getLast_mem h)⟩

/-- A date starts with the digits of its year. -/
theorem startsWithDigit_dateText (d : Date) : StartsWithDigit (dateText d) :=
  ((((startsWithDigit_padded 4 d.year).append _).append _).append _).append _

/-- And ends with those of its day. -/
theorem endsWithDigit_dateText (d : Date) : EndsWithDigit (dateText d) :=
  (endsWithDigit_padded 2 d.day).append _

/-- What may be followed by a fraction still ends with a digit. -/
theorem EndsWithDigit.fraction {s : String} (h : EndsWithDigit s)
    (micro : Nat) :
    EndsWithDigit (s ++ fractionText micro) := by
  unfold fractionText
  split_ifs
  · rwa [String.append_empty]
  · exact ((endsWithDigit_padded 6 micro).append _).append _

/-- A time ends with a second or with a fraction. -/
private theorem endsWithDigit_timeText (t : TimeOfDay) :
    EndsWithDigit (timeText t) :=
  ((endsWithDigit_padded 2 t.second.val).append _).fraction t.micro.val

/-- An offset ends with minutes, seconds or a fraction. -/
private theorem endsWithDigit_offsetText (o : Offset) :
    EndsWithDigit (offsetText o) := by
  unfold offsetText
  generalize (if o.micros < 0 then "-" else "+") = sign
  simp only
  split_ifs
  · rw [String.append_empty]
    exact (endsWithDigit_padded 2 _).append _
  · exact (((endsWithDigit_padded 2 _).append _).fraction _).append _

/-- So a date-time starts with a digit. -/
theorem startsWithDigit_text (separator : Char) (t : DateTime) :
    StartsWithDigit (text separator t) :=
  (((startsWithDigit_dateText t.date).append _).append _).append _

/-- And ends with one, which is why no blank around it belongs to it. -/
theorem endsWithDigit_text (separator : Char) (t : DateTime) :
    EndsWithDigit (text separator t) := by
  unfold text
  cases t.offset with
  | none =>
      show EndsWithDigit (_ ++ "")
      rw [String.append_empty]
      exact (endsWithDigit_timeText t.time).append _
  | some o => exact (endsWithDigit_offsetText o).append _

end Iso

end GraphMapper

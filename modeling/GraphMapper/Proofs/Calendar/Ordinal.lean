/-
Which day numbers and which seconds have a date.

A day number is split into a year and a day of that year, and the day of the
year into a month and a day of that month. The first split gives a day that the
year has (`yearAndDay_lt`): only the last day of a leap year is counted beyond
365. The second one gives a day that the month has (`monthAndDay_valid`), since
the months that have been passed take no more days than the year had. So a day
number has a date whenever its year lies in the calendar.

# How far the calendar goes

There are years 1 to 9999, so the seconds of the calendar have a first and a
last (`firstSecond`, `lastSecond`). Between them every second has a date, and
beyond them there is none.

Main statement: `isSome_ofEpoch?_iff`.

Chain: `Calendar.DateTime`; `Record.Milliseconds` asks for the date of a
number.
-/
import GraphMapper.Calendar.DateTime
import Mathlib.Tactic.SplitIfs

namespace GraphMapper

namespace Calendar

private theorem isLeap_iff (year : Nat) :
    isLeap year = true ↔ year % 4 = 0 ∧ (year % 100 ≠ 0 ∨ year % 400 = 0) := by
  simp [isLeap]

/-- The months of a year have its days. -/
private theorem daysBeforeMonth_thirteen (year : Nat) :
    daysBeforeMonth year 13 = daysInYear year := by
  simp only [daysBeforeMonth, daysInMonth, daysInYear]
  cases isLeap year <;> rfl

end Calendar

namespace Date

open Calendar

/-- The first split gives a day that the year has. -/
theorem yearAndDay_lt (n : Nat) :
    (yearAndDay n).2 < daysInYear (yearAndDay n).1 := by
  have hdays : (yearAndDay n).2 < 365 ∨
      (yearAndDay n).2 = 365 ∧ isLeap (yearAndDay n).1 = true := by
    rw [isLeap_iff]
    simp only [yearAndDay]
    omega
  unfold daysInYear
  rcases hdays with hshort | ⟨hlast, hleap⟩
  · split_ifs <;> omega
  · rw [if_pos hleap]
    omega

/-- The years of the calendar have so many days. -/
private theorem year_le_iff (n : Nat) :
    (yearAndDay n).1 ≤ 9999 ↔ n < 3652059 := by
  simp only [yearAndDay]
  -- the calendar ends within its 25th span of four centuries
  rcases Nat.lt_trichotomy (n / 146097) 24 with hbefore | hwithin | hafter
  · exact iff_of_true (by omega) (by omega)
  · rw [hwithin]
    have hrest : n = 24 * 146097 + n % 146097 := by omega
    generalize n % 146097 = day at hrest ⊢
    subst hrest
    omega
  · exact iff_of_false (by omega) (by omega)

private theorem one_le_year (n : Nat) : 1 ≤ (yearAndDay n).1 :=
  Nat.succ_le_succ (Nat.zero_le _)

/-- The second split gives a day that the month has. -/
theorem monthAndDay_valid {year : Nat} (fuel : Nat) {month n : Nat}
    (hmonth : 1 ≤ month) (hfuel : month + fuel = 12)
    (hn : daysBeforeMonth year month + n < daysBeforeMonth year 13) :
    1 ≤ (monthAndDay year fuel month n).1 ∧ (monthAndDay year fuel month n).1
      ≤ 12 ∧ 1 ≤ (monthAndDay year fuel month n).2 ∧
      (monthAndDay year fuel month n).2
        ≤ daysInMonth year (monthAndDay year fuel month n).1 := by
  have hnext : daysBeforeMonth year (month + 1)
      = daysBeforeMonth year month + daysInMonth year month := by
    cases month with
    | zero => omega
    | succ month => rfl
  induction fuel generalizing month n with
  | zero =>
      obtain rfl : month = 12 := by omega
      have hlast : n < daysInMonth year 12 := by
        rw [hnext] at hn
        omega
      exact ⟨hmonth, Nat.le_refl 12, Nat.le_add_left 1 n, hlast⟩
  | succ fuel ih =>
      rw [monthAndDay]
      by_cases hin : n < daysInMonth year month
      · rw [if_pos hin]
        exact ⟨hmonth, by show month ≤ 12; omega, Nat.le_add_left 1 n, hin⟩
      · rw [if_neg hin]
        refine ih (by omega) (by omega) ?_ rfl
        rw [hnext]
        omega

/-- A day number has a date just when its year lies in the calendar. -/
private theorem isSome_ofOrdinal?_iff (n : Int) :
    (ofOrdinal? n).isSome = true ↔ 1 ≤ n ∧ n ≤ 3652059 := by
  unfold ofOrdinal?
  by_cases hn : n < 1
  · rw [if_pos hn]
    exact iff_of_false Bool.false_ne_true fun h => by omega
  · rw [if_neg hn]
    have hday : daysBeforeMonth (yearAndDay (n.toNat - 1)).1 1
        + (yearAndDay (n.toNat - 1)).2
          < daysBeforeMonth (yearAndDay (n.toNat - 1)).1 13 := by
      rw [daysBeforeMonth_thirteen, show daysBeforeMonth _ 1 = 0 from rfl,
        Nat.zero_add]
      exact yearAndDay_lt (n.toNat - 1)
    obtain ⟨hlow, hhigh, hfirst, hlast⟩ :=
      monthAndDay_valid 11 (Nat.le_refl 1) rfl hday
    have hvalid : ValidDate (yearAndDay (n.toNat - 1)).1
        (monthAndDay (yearAndDay (n.toNat - 1)).1 11 1
          (yearAndDay (n.toNat - 1)).2).1
        (monthAndDay (yearAndDay (n.toNat - 1)).1 11 1
          (yearAndDay (n.toNat - 1)).2).2
            ↔ (yearAndDay (n.toNat - 1)).1 ≤ 9999 :=
      ⟨fun h => h.2.1, fun h => ⟨one_le_year _, h, hlow, hhigh, hfirst, hlast⟩⟩
    show (ofParts? _ _ _).isSome = true ↔ _
    unfold ofParts?
    rw [show (1 ≤ n ∧ n ≤ 3652059)
        ↔ n.toNat - 1 < 3652059 by omega, ← year_le_iff, ← hvalid]
    split_ifs with h
    · exact iff_of_true rfl h
    · exact iff_of_false Bool.false_ne_true h

end Date

namespace DateTime

/-- The seconds after 1970 began at which the calendar begins and ends. -/
def firstSecond : Int := -62135596800

def lastSecond : Int := 253402300799

/-- There is a date-time for the seconds of the calendar, and for no others. -/
theorem isSome_ofEpoch?_iff (seconds : Int) (micros : Nat) :
    (ofEpoch? seconds micros).isSome = true ↔ firstSecond ≤ seconds ∧
      seconds ≤ lastSecond := by
  unfold ofEpoch?
  rw [Option.isSome_map, Date.isSome_ofOrdinal?_iff,
    Int.fdiv_eq_ediv_of_nonneg _ (by decide)]
  unfold epochDay firstSecond lastSecond
  omega

end DateTime

end GraphMapper

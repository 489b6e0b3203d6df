/-
Which numbers of milliseconds have a date.

Milliseconds are divided by a thousand, the seconds are split into whole ones
and a fraction, and the fraction is rounded to microseconds; each of these
steps rounds to a number of the format. Rounded up, a fraction might reach the
next second, and the last second of the calendar would be left; rounded to
nothing, what is before the calendar would be in it. But numbers of the format
that are close to the ends of the calendar are far enough apart for the
microseconds to be seen (`IsMagnitude.apart`), and no step passes a number of
the format (`ofQuotient_cases`). So it is told by the milliseconds themselves.

Main statements: `isOk_toDateTime_float_iff` and `isOk_toDateTime_int_iff`.

Chain: `Number.Rounding` for what a rounding may pass, `Calendar.Ordinal` for
the days; the modules on stored dates draw on it through `Record.Coercion`.
-/
import GraphMapper.Proofs.Calendar.Ordinal
import GraphMapper.Proofs.Failure.Checked
import GraphMapper.Proofs.Number.Rounding
import GraphMapper.Record.Coercion

namespace GraphMapper.Record

open Binary64 DateTime

variable {m : Nat} {e : Int}

/-- The whole seconds, and the microseconds behind them, that a number of
seconds is nearest to. -/
def seconds? (x : Binary64) : Option (Int × Nat) :=
  x.truncate?.map fun whole =>
    let micros := (x.fraction.timesNat 1000000).nearest
    if 1000000 ≤ micros then (whole + 1, (micros - 1000000).toNat)
    else if micros < 0 then (whole - 1, (micros + 1000000).toNat)
    else (whole, micros.toNat)

/-- So many seconds are split into whole ones and microseconds. Close to a
whole number the microseconds are on its side. -/
structure Splits (q : ℚ) (whole micros : Nat) : Prop where
  whole_le : (whole : ℚ) ≤ q
  lt_next : q < whole + 1
  none_at : q = whole → micros = 0
  some_behind : whole + 1 / 2 ^ 17 ≤ q → 0 < micros
  few_before : q + 1 / 2 ^ 15 ≤ whole + 1 → micros < 1000000

/-- The microseconds of a fraction. -/
private theorem exists_micros (negative : Bool) {n d : Nat} (hd : 0 < d)
    (hfraction : (n : ℚ) / d < 1) :
    ∃ micros : Nat, ((ofQuotient negative n d).timesNat 1000000).nearest
        = (if negative then -(micros : Int) else micros) ∧
      (n = 0 → micros = 0) ∧ (1 / 2 ^ 17 ≤ (n : ℚ) / d → 0 < micros) ∧
      ((n : ℚ) / d + 1 / 2 ^ 15 ≤ 1 → micros < 1000000) := by
  have hzero : IsMagnitude 0 := by
    exact_mod_cast isMagnitude_natCast (show 0 < 2 ^ 53 by decide)
  have hone : IsMagnitude 1 := by
    exact_mod_cast isMagnitude_natCast (show 1 < 2 ^ 53 by decide)
  rcases ofQuotient_cases negative n hd with ⟨m, e, h, hx, hrounds⟩
    | ⟨-, hbeyond⟩
  swap
  · exact absurd (hbeyond 1 hone) (not_lt.mpr hfraction.le)
  rw [hx]
  rcases timesNat_cases negative h 1000000 with ⟨m', e', h', hy, hrounds'⟩
    | ⟨-, hbeyond⟩
  swap
  · have hle := hrounds.le hone hfraction.le
    have hlt := hbeyond ((1000000 : Nat) : ℚ) (isMagnitude_natCast (by decide))
    push_cast at hlt
    linarith
  rw [hy]
  push_cast at hrounds'
  obtain ⟨micros, hmicros, hsides⟩ := exists_nearest negative h'
  refine ⟨micros, hmicros, fun hn => ?_, fun hlow => ?_, fun hhigh => ?_⟩
  · have hle := hrounds.le hzero (by rw [hn, Nat.cast_zero, zero_div])
    refine Nat.le_zero.mp ((hsides 0).1 ?_)
    rw [Nat.cast_zero]
    exact hrounds'.le hzero (by linarith)
  · have hunit := isMagnitude_div (m := 1) (k := 17) (by decide) (by decide)
    have hle := hrounds.ge hunit (by exact_mod_cast hlow)
    -- the least fraction that is looked at has seven microseconds
    refine Nat.lt_of_lt_of_le (by decide : 0 < 7) ((hsides 7).2 ?_)
    refine hrounds'.ge (isMagnitude_natCast (by decide)) ?_
    norm_num at hle ⊢
    linarith
  · have hunit :=
      isMagnitude_div (m := 2 ^ 15 - 1) (k := 15) (by decide) (by decide)
    have hle := hrounds.le hunit (by norm_num at hhigh ⊢; linarith)
    refine Nat.lt_of_le_of_lt ((hsides 999970).1 ?_) (by decide)
    refine hrounds'.le (isMagnitude_natCast (by decide)) ?_
    norm_num at hle ⊢
    linarith

/-- A finite number of seconds is split. -/
private theorem seconds?_finite (negative : Bool) (h : Canonical m e) :
    ∃ whole micros, Splits (m * 2 ^ e) whole micros ∧
      (seconds? (.finite negative m e h)).map Prod.fst
        = some (if negative then
          (if 0 < micros then -(whole : Int) - 1 else -whole)
          else if 1000000 ≤ micros then whole + 1 else whole) := by
  obtain ⟨hterms, hvalue⟩ := terms_eq m e
  have hd : (0 : ℚ) < (terms m e).2 := Nat.cast_pos.mpr hterms
  -- whole part and fraction of the quotient; the fraction rounds to micros
  have hsplit : (m : ℚ) * 2 ^ e = ((terms m e).1 / (terms m e).2 : Nat)
      + ((terms m e).1 % (terms m e).2 : Nat) / (terms m e).2 := by
    rw [← hvalue, div_eq_iff hd.ne', add_mul, div_mul_cancel₀ _ hd.ne']
    exact_mod_cast (Nat.div_add_mod' _ _).symm
  have hfraction : (((terms m e).1 % (terms m e).2 : Nat) : ℚ) / (terms m e).2
      < 1 := by
    rw [div_lt_one hd]
    exact_mod_cast Nat.mod_lt _ hterms
  have hrest : (0 : ℚ)
      ≤ ((terms m e).1 % (terms m e).2 : Nat) / (terms m e).2 := by positivity
  obtain ⟨micros, hmicros, hexact, hbehind, hbefore⟩ :=
    exists_micros negative hterms hfraction
  refine ⟨(terms m e).1 / (terms m e).2, micros,
    ⟨?_, ?_, fun hq => hexact ?_, fun hq => hbehind ?_, fun hq => hbefore ?_⟩,
    ?_⟩
  · linarith
  · linarith
  · rw [hsplit, add_eq_left, div_eq_zero_iff] at hq
    exact_mod_cast hq.resolve_right hd.ne'
  · linarith
  · linarith
  · unfold seconds?
    rw [truncate?_finite, fraction_finite, hmicros]
    generalize (terms m e).1 / (terms m e).2 = whole
    simp only [Option.map_some, apply_ite Prod.fst]
    cases negative <;> simp only [Bool.false_eq_true, if_true, if_false] <;>
      congr 1 <;> split_ifs <;> omega

-- ============================================================= the calendar

/-- The calendar has a date for so many milliseconds after 1970 began: they lie
between the beginning of its first second and the end of its last one. -/
def InCalendar (p : Position) : Prop :=
  p.lt (.finite (.ofInt (1000 * firstSecond))) = false ∧
    p.lt (.finite (.ofInt (1000 * (lastSecond + 1)))) = true

instance : DecidablePred InCalendar :=
  fun _ => inferInstanceAs (Decidable (_ ∧ _))

private theorem isOk_ofSeconds_iff (seconds : Int) (micros : Nat) :
    (ofSeconds seconds micros).isOk = true ↔ firstSecond ≤ seconds ∧
      seconds ≤ lastSecond := by
  rw [← isSome_ofEpoch?_iff seconds micros]
  unfold ofSeconds
  by_cases hreach : (seconds < -clockReach || clockReach < seconds) = true
  · rw [if_pos hreach, isSome_ofEpoch?_iff]
    refine iff_of_false Bool.false_ne_true ?_
    rw [Bool.or_eq_true, decide_eq_true_iff, decide_eq_true_iff] at hreach
    unfold clockReach at hreach
    unfold firstSecond lastSecond
    omega
  · rw [if_neg hreach]
    by_cases hclock : (seconds < leastClockSecond ||
      greatestClockSecond < seconds) = true
    · rw [if_pos hclock, isSome_ofEpoch?_iff]
      refine iff_of_false Bool.false_ne_true ?_
      rw [Bool.or_eq_true, decide_eq_true_iff, decide_eq_true_iff] at hclock
      unfold leastClockSecond greatestClockSecond at hclock
      unfold firstSecond lastSecond
      omega
    · rw [if_neg hclock]
      cases ofEpoch? seconds micros <;> exact iff_of_eq rfl

theorem ofEpochSeconds_eq (x : Binary64) :
    ofEpochSeconds x = match seconds? x with
    | none => .error (.slip (if x.isNaN then .value else .overflow))
    | some s => ofSeconds s.1 s.2 := by
  unfold ofEpochSeconds seconds?
  cases x.truncate? with
  | none => rfl
  | some whole =>
      dsimp only [Option.map_some]
      split_ifs <;> rfl

/-- There is a date for seconds if there is one for the whole ones. -/
private theorem isOk_ofEpochSeconds_iff {x : Binary64} {s : Int}
    (h : (seconds? x).map Prod.fst = some s) :
    (ofEpochSeconds x).isOk = true ↔ firstSecond ≤ s ∧ s ≤ lastSecond := by
  obtain ⟨both, hboth, rfl⟩ := Option.map_eq_some_iff.mp h
  rw [ofEpochSeconds_eq, hboth]
  exact isOk_ofSeconds_iff both.1 both.2

/-- After 1970 the seconds have a date if the milliseconds come before the end
of the calendar. -/
private theorem isOk_forward (h : Canonical m e) :
    (ofEpochSeconds ((Binary64.finite false m e h).divideBy 1000)).isOk = true
      ↔ (m : ℚ) * 2 ^ e < 253402300800000 := by
  have hend : IsMagnitude 253402300800 := by
    exact_mod_cast isMagnitude_natCast (show 253402300800 < 2 ^ 53 by decide)
  rcases divideBy_cases false h (show 0 < 1000 by decide) with
    ⟨m', e', h', hseconds, hrounds⟩ | ⟨hseconds, hbeyond⟩
  · rw [hseconds]
    obtain ⟨whole, micros, hsplits, hwhole⟩ := seconds?_finite false h'
    rw [if_neg Bool.false_ne_true] at hwhole
    rw [isOk_ofEpochSeconds_iff hwhole]
    unfold firstSecond lastSecond
    push_cast at hrounds
    constructor
    · intro hdated
      by_contra hlate
      have hle := hrounds.ge hend (by linarith)
      have hreached : 253402300800 < whole + 1 := by
        exact_mod_cast hle.trans_lt hsplits.lt_next
      split_ifs at hdated <;> omega
    · -- a unit of such milliseconds is more than a unit of such seconds
      intro hearly
      have hunit :=
        ((isMagnitude_of_canonical h).apart (k := 5) (c := 253402300800000)
          (by decide) (by decide)).1 hearly
      have hlast := isMagnitude_div (m := 253402300800 * 2 ^ 15 - 1) (k := 15)
        (by decide) (by decide)
      have hle := hrounds.le hlast (by norm_num at hunit ⊢; linarith)
      norm_num at hle
      have hwithin : whole < 253402300800 := by
        have hlt : (whole : ℚ) < 253402300800 := by linarith [hsplits.whole_le]
        exact_mod_cast hlt
      by_cases hsecond : whole = 253402300799
      · have hfew := hsplits.few_before (by rw [hsecond]; norm_num; linarith)
        split_ifs <;> omega
      · split_ifs <;> omega
  · rw [hseconds]
    refine iff_of_false Bool.false_ne_true ?_
    have hlt := hbeyond _ hend
    push_cast at hlt
    linarith

/-- Before 1970 they do if the milliseconds do not go behind its beginning. -/
private theorem isOk_backward (h : Canonical m e) :
    (ofEpochSeconds ((Binary64.finite true m e h).divideBy 1000)).isOk = true ↔
      (m : ℚ) * 2 ^ e ≤ 62135596800000 := by
  have hstart : IsMagnitude 62135596800 := by
    exact_mod_cast isMagnitude_natCast (show 62135596800 < 2 ^ 53 by decide)
  rcases divideBy_cases true h (show 0 < 1000 by decide) with
    ⟨m', e', h', hseconds, hrounds⟩ | ⟨hseconds, hbeyond⟩
  · rw [hseconds]
    obtain ⟨whole, micros, hsplits, hwhole⟩ := seconds?_finite true h'
    rw [if_pos rfl] at hwhole
    rw [isOk_ofEpochSeconds_iff hwhole]
    unfold firstSecond lastSecond
    push_cast at hrounds
    constructor
    · -- and so it is before the calendar, where both are smaller
      intro hdated
      by_contra hearly
      have hunit :=
        ((isMagnitude_of_canonical h).apart (k := 7) (c := 62135596800000)
          (by decide) (by decide)).2 (not_le.mp hearly)
      have hfirst := isMagnitude_div (m := 62135596800 * 2 ^ 17 + 1) (k := 17)
        (by decide) (by decide)
      have hle := hrounds.ge hfirst (by norm_num at hunit ⊢; linarith)
      norm_num at hle
      have hreached : 62135596800 < whole + 1 := by
        have hlt : (62135596800 : ℚ) < whole + 1 := by
          linarith [hsplits.lt_next]
        exact_mod_cast hlt
      by_cases hsecond : whole = 62135596800
      · have hsome := hsplits.some_behind (by rw [hsecond]; norm_num; linarith)
        rw [if_pos hsome] at hdated
        omega
      · split_ifs at hdated <;> omega
    · intro hlate
      have hle := hrounds.le hstart (by linarith)
      have hwithin : whole ≤ 62135596800 := by
        exact_mod_cast hsplits.whole_le.trans hle
      by_cases hsecond : whole = 62135596800
      · have hnone :=
          hsplits.none_at
            (le_antisymm (by rw [hsecond]; exact hle) hsplits.whole_le)
        rw [hnone, if_neg (Nat.lt_irrefl 0)]
        omega
      · split_ifs <;> omega
  · rw [hseconds]
    refine iff_of_false Bool.false_ne_true ?_
    have hlt := hbeyond _ hstart
    push_cast at hlt
    linarith

private theorem lt_ofInt_iff (c e b : Int) :
    (Ratio.scaled c e).lt (.ofInt b) = true ↔ (c : ℚ) * 2 ^ e < b := by
  unfold Ratio.scaled Ratio.ofInt Ratio.lt
  by_cases he : 0 ≤ e
  · rw [if_pos he, decide_eq_true_iff]
    obtain ⟨j, rfl⟩ := Int.eq_ofNat_of_zero_le he
    rw [Int.toNat_natCast, zpow_natCast, ← cast_twoPow]
    simp only [Nat.cast_one, mul_one]
    exact_mod_cast Iff.rfl
  · rw [if_neg he, decide_eq_true_iff]
    obtain ⟨j, rfl⟩ := Int.exists_eq_neg_ofNat (Int.le_of_not_le he)
    show c * ((1 : Nat) : Int) < b * (twoPow (-(-(j : Int))).toNat : Nat) ↔ _
    rw [Int.neg_neg, Int.toNat_natCast, zpow_neg, zpow_natCast, ← cast_twoPow,
      mul_inv_lt_iff₀ (by exact_mod_cast twoPow_pos j), Nat.cast_one, mul_one]
    exact_mod_cast Iff.rfl

/-- A finite number of milliseconds is in the calendar by its distance from
1970. -/
private theorem inCalendar_iff (negative : Bool) (h : Canonical m e) :
    (∃ p, (Binary64.finite negative m e h).position? = some p ∧ InCalendar p) ↔
      if negative then (m : ℚ) * 2 ^ e ≤ 62135596800000 else (m : ℚ) * 2 ^ e
        < 253402300800000 := by
  have hnonneg := (isMagnitude_of_canonical h).nonneg
  simp only [position?, Option.some.injEq, exists_eq_left']
  unfold InCalendar Position.lt
  rw [← Bool.not_eq_true, lt_ofInt_iff, lt_ofInt_iff]
  unfold firstSecond lastSecond
  push_cast
  cases negative with
  | true =>
      simp only [if_true, neg_mul]
      exact ⟨fun hin => by
        linarith [hin.1], fun hle => ⟨by linarith, by linarith⟩⟩
  | false =>
      simp only [Bool.false_eq_true, if_false]
      exact ⟨fun hin => by
        linarith [hin.2], fun hlt => ⟨by linarith, by linarith⟩⟩

/-- Milliseconds that are a floating-point number have a date just when they
are in the calendar. -/
theorem isOk_toDateTime_float_iff (x : Binary64) :
    (toDateTime (.float x)).isOk = true ↔ ∃ p,
      x.position? = some p ∧ InCalendar p := by
  cases x with
  | nan payload =>
      exact iff_of_false Bool.false_ne_true fun ⟨_, h, _⟩ => nomatch h
  | infinite negative =>
      refine iff_of_false Bool.false_ne_true ?_
      cases negative <;> decide
  | finite negative m e h =>
      rw [inCalendar_iff]
      cases negative with
      | true => exact isOk_backward h
      | false => exact isOk_forward h

/-- The nearest number to an integer is on the same side of the ends of the
calendar. -/
theorem isOk_toDateTime_int_iff (n : Int) :
    (toDateTime (.int n)).isOk = true ↔ InCalendar (.finite (.ofInt n)) := by
  have hwithin : InCalendar (.finite (.ofInt n)) ↔ -62135596800000 ≤ n ∧
      n < 253402300800000 := by
    unfold InCalendar Position.lt Ratio.lt Ratio.ofInt firstSecond lastSecond
    rw [decide_eq_false_iff_not, decide_eq_true_iff]
    dsimp only
    omega
  rw [hwithin]
  unfold toDateTime
  dsimp only
  unfold ofInt?
  rcases ofQuotient_cases (decide (n < 0)) n.natAbs Nat.one_pos with
    ⟨m, e, h, hx, hrounds⟩ | ⟨hx, hbeyond⟩
  · rw [hx]
    show (toDateTime (.float (.finite _ m e h))).isOk = true ↔ _
    rw [isOk_toDateTime_float_iff, inCalendar_iff]
    rw [Nat.cast_one, div_one] at hrounds
    have hstart := hrounds.le_natCast_iff (k := 62135596800000) (by decide)
    have hend := hrounds.lt_natCast_iff (k := 253402300800000) (by decide)
    push_cast at hstart hend
    rw [hstart, hend]
    by_cases hn : n < 0 <;>
      simp only [hn, decide_true, decide_false, Bool.false_eq_true, if_true,
        if_false] <;> omega
  · rw [hx]
    refine iff_of_false Bool.false_ne_true fun hin => ?_
    have hlt := hbeyond _
      (isMagnitude_natCast (show 253402300800000 < 2 ^ 53 by decide))
    rw [Nat.cast_one, div_one] at hlt
    have hnat : 253402300800000 < n.natAbs := by exact_mod_cast hlt
    omega

end GraphMapper.Record

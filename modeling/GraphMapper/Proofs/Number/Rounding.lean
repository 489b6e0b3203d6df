/-
What the rounding of a quotient to a number of the format tells about the
quotient.

A quotient is written in units of a power of two, such that the units have at
most 53 bits, and is rounded to whole units. The numbers of the format that are
as large as the quotient or larger are whole in these units, so none of them is
passed on the way (`rounds_units`): the result stands on the same side of all
of them, or on the one that the quotient is. If there is no number of the
format that reaches the quotient, the result may be infinite, and otherwise it
is not.

Main statement: `ofQuotient_cases`.

Chain: `Number.Binary64` defines the format; `Transaction.Usable` and
`Record.Milliseconds` draw on it for times.
-/
import GraphMapper.Number.Binary64
import Mathlib.Algebra.Order.Field.Power
import Mathlib.Data.Rat.Cast.Order
import Mathlib.Tactic.Linarith
import Mathlib.Tactic.NormNum
import Mathlib.Tactic.Positivity
import Mathlib.Tactic.Ring

namespace GraphMapper.Binary64

variable {n d m k : Nat} {e : Int} {g : ℚ} {negative : Bool}

/-- How far numbers of the format can be from zero. -/
def IsMagnitude (q : ℚ) : Prop :=
  ∃ (m : Nat) (e : Int), m < 2 ^ 53 ∧ -1074 ≤ e ∧ e ≤ 971 ∧ q = m * (2 : ℚ) ^ e

/-- No magnitude is passed on the way from `q` to `m * 2 ^ e`. -/
structure Rounds (q : ℚ) (m : Nat) (e : Int) : Prop where
  le : ∀ {g}, IsMagnitude g → q ≤ g → m * (2 : ℚ) ^ e ≤ g
  ge : ∀ {g}, IsMagnitude g → g ≤ q → g ≤ m * (2 : ℚ) ^ e

/-- A magnitude is not negative. -/
theorem IsMagnitude.nonneg (hg : IsMagnitude g) : 0 ≤ g := by
  obtain ⟨m, e, -, -, -, rfl⟩ := hg
  positivity

/-- Every number of the format has one. -/
theorem isMagnitude_of_canonical (h : Canonical m e) :
    IsMagnitude (m * (2 : ℚ) ^ e) :=
  ⟨m, e, h.1, h.2.1, h.2.2.1, rfl⟩

/-- A number of at most 53 bits behind a binary point. -/
theorem isMagnitude_div (hm : m < 2 ^ 53) (hk : k ≤ 1074) :
    IsMagnitude (m / 2 ^ k) :=
  ⟨m, -k, hm, by
    omega, by omega, by rw [zpow_neg, zpow_natCast, div_eq_mul_inv]⟩

/-- So has every natural number of 53 bits. -/
theorem isMagnitude_natCast (hm : m < 2 ^ 53) : IsMagnitude m := by
  have h := isMagnitude_div hm (Nat.zero_le 1074)
  rwa [pow_zero, div_one] at h

/-- A whole number is rounded to the same side of the others of 53 bits. -/
theorem Rounds.le_natCast_iff (h : Rounds n m e) (hk : k + 1 < 2 ^ 53) :
    m * (2 : ℚ) ^ e ≤ k ↔ n ≤ k := by
  refine ⟨fun hle => ?_,
    fun hle => h.le (isMagnitude_natCast (by omega)) (by exact_mod_cast hle)⟩
  by_contra hlt
  have hnext := h.ge (isMagnitude_natCast hk) (by exact_mod_cast not_le.mp hlt)
  push_cast at hnext
  linarith

/-- A result is below such a number just if the quotient is. -/
theorem Rounds.lt_natCast_iff (h : Rounds n m e) (hk : k < 2 ^ 53) :
    m * (2 : ℚ) ^ e < k ↔ n < k := by
  constructor
  · intro hlt
    by_contra hle
    exact absurd hlt
      (not_lt.mpr (h.ge (isMagnitude_natCast hk)
        (by exact_mod_cast not_lt.mp hle)))
  · intro hlt
    refine (h.le (g := (k - 1 : Nat)) (isMagnitude_natCast (by omega))
      ?_).trans_lt ?_
    · exact_mod_cast Nat.le_sub_one_of_lt hlt
    · exact_mod_cast Nat.sub_one_lt_of_lt hlt

/-- Powers of two multiply as their exponents add. -/
private theorem zpow_two_add (e : Int) (k : Nat) :
    (2 : ℚ) ^ (e + k) = 2 ^ e * 2 ^ k := by
  rw [zpow_add₀ two_ne_zero, zpow_natCast]

/-- The power of two that is computed is the one of the theory. -/
theorem cast_twoPow (k : Nat) : ((twoPow k : Nat) : ℚ) = 2 ^ k :=
  Nat.cast_pow 2 k

/-- A magnitude is the quotient of its terms. -/
theorem terms_eq (m : Nat) (e : Int) :
    0 < (terms m e).2 ∧ ((terms m e).1 : ℚ) / (terms m e).2
      = m * (2 : ℚ) ^ e := by
  unfold terms
  by_cases he : 0 ≤ e
  · rw [if_pos he]
    refine ⟨Nat.one_pos, ?_⟩
    obtain ⟨k, rfl⟩ := Int.eq_ofNat_of_zero_le he
    rw [Int.toNat_natCast, Nat.cast_mul, cast_twoPow, Nat.cast_one, div_one,
      zpow_natCast]
  · rw [if_neg he]
    refine ⟨twoPow_pos _, ?_⟩
    obtain ⟨k, rfl⟩ := Int.exists_eq_neg_ofNat (Int.le_of_not_le he)
    rw [Int.neg_neg, Int.toNat_natCast, cast_twoPow, zpow_neg, zpow_natCast,
      div_eq_mul_inv]

-- ================================================================ whole units

/-- What is at most a whole number is not rounded beyond it. -/
private theorem divideEven_le (hd : 0 < d) (h : (n : ℚ) / d ≤ k) :
    divideEven n d ≤ k := by
  rw [div_le_iff₀ (Nat.cast_pos.mpr hd)] at h
  have hmul : n ≤ d * k := by
    rw [Nat.mul_comm]
    exact_mod_cast h
  have hle : n / d ≤ k := Nat.div_le_of_le_mul hmul
  have hsplit := Nat.div_add_mod n d
  unfold divideEven
  dsimp only
  split
  · next hup =>
    -- there is a remainder, so the whole part is smaller
    have hrest : n % d ≠ 0 := by
      intro hnone
      rw [hnone] at hup
      simp only [Nat.mul_zero, Nat.not_lt_zero, decide_false, Bool.false_or,
        Bool.and_eq_true, beq_iff_eq] at hup
      omega
    refine Nat.lt_of_le_of_ne hle fun hsame => ?_
    rw [hsame] at hsplit
    omega
  · exact hle

/-- Rounding to whole units does not pass a whole number from above. -/
private theorem le_divideEven (hd : 0 < d) (h : (k : ℚ) ≤ n / d) :
    k ≤ divideEven n d := by
  rw [le_div_iff₀ (Nat.cast_pos.mpr hd)] at h
  have hle : k ≤ n / d := (Nat.le_div_iff_mul_le hd).mpr (by exact_mod_cast h)
  unfold divideEven
  dsimp only
  split
  · exact Nat.le_succ_of_le hle
  · exact hle

/-- The quotient in whole units of `2 ^ e`. -/
def units (n d : Nat) (e : Int) : Nat :=
  if 0 ≤ e then divideEven n (d * twoPow e.toNat)
  else divideEven (n * twoPow (-e).toNat) d

/-- The units of a quotient are a quotient of natural numbers that is
rounded. -/
private theorem units_eq (hd : 0 < d) (n : Nat) (e : Int) :
    ∃ a b : Nat, 0 < b ∧
    units n d e = divideEven a b ∧ (a : ℚ) / b = (n : ℚ) / d / 2 ^ e := by
  unfold units
  by_cases he : 0 ≤ e
  · rw [if_pos he]
    obtain ⟨j, rfl⟩ := Int.eq_ofNat_of_zero_le he
    refine ⟨n, d * twoPow j, Nat.mul_pos hd (twoPow_pos j), rfl, ?_⟩
    rw [Nat.cast_mul, cast_twoPow, div_div, zpow_natCast]
  · rw [if_neg he]
    obtain ⟨j, rfl⟩ := Int.exists_eq_neg_ofNat (Int.le_of_not_le he)
    refine ⟨n * twoPow j, d, hd, by rw [Int.neg_neg]; rfl, ?_⟩
    rw [Nat.cast_mul, cast_twoPow, zpow_neg, zpow_natCast, div_inv_eq_mul,
      mul_div_right_comm]

/-- Units do not pass a number of whole units from below. -/
private theorem units_le (hd : 0 < d) (h : (n : ℚ) / d ≤ k * 2 ^ e) :
    units n d e ≤ k := by
  obtain ⟨a, b, hb, hunits, hquotient⟩ := units_eq hd n e
  rw [hunits]
  refine divideEven_le hb ?_
  rw [hquotient]
  exact (div_le_iff₀ (by positivity)).mpr h

/-- Nor do they from above. -/
private theorem le_units (hd : 0 < d) (h : k * 2 ^ e ≤ (n : ℚ) / d) :
    k ≤ units n d e := by
  obtain ⟨a, b, hb, hunits, hquotient⟩ := units_eq hd n e
  rw [hunits]
  refine le_divideEven hb ?_
  rw [hquotient]
  exact (le_div_iff₀ (by positivity)).mpr h

-- ================================================================== exponents

/-- The logarithm is that of the quotient. -/
private theorem log2Floor_spec (hn : 0 < n) (hd : 0 < d) :
    2 ^ log2Floor n d ≤ (n : ℚ) / d ∧
      (n : ℚ) / d < 2 ^ (log2Floor n d + 1) := by
  have hd' : (0 : ℚ) < d := Nat.cast_pos.mpr hd
  have hn' : (0 : ℚ) < n := Nat.cast_pos.mpr hn
  have hnlow : (2 : ℚ) ^ n.log2 ≤ n := by
    exact_mod_cast Nat.log2_self_le hn.ne'
  have hnhigh : (n : ℚ) < 2 ^ (n.log2 + 1) := by
    exact_mod_cast Nat.lt_log2_self
  have hdlow : (2 : ℚ) ^ d.log2 ≤ d := by
    exact_mod_cast Nat.log2_self_le hd.ne'
  have hdhigh : (d : ℚ) < 2 ^ (d.log2 + 1) := by
    exact_mod_cast Nat.lt_log2_self
  -- the difference of the two logarithms is at most one too high
  have hdiff : (2 : ℚ) ^ ((n.log2 : Int) - d.log2)
      = 2 ^ n.log2 / 2 ^ d.log2 := by
    rw [zpow_sub₀ two_ne_zero, zpow_natCast, zpow_natCast]
  have hhigh : (n : ℚ) / d < 2 ^ ((n.log2 : Int) - d.log2 + 1) := by
    rw [zpow_add_one₀ two_ne_zero, hdiff, div_mul_eq_mul_div, ← pow_succ]
    exact div_lt_div₀ hnhigh hdlow (by positivity) (by positivity)
  have hlow : 2 ^ ((n.log2 : Int) - d.log2 - 1) ≤ (n : ℚ) / d := by
    rw [zpow_sub_one₀ two_ne_zero, hdiff, ← div_eq_mul_inv,
      div_div, ← pow_succ]
    exact (div_lt_div₀' hnlow hdhigh hn' (by positivity)).le
  -- the comparison made on the integers, read as one of the quotient
  have hreached : (if 0 ≤ (n.log2 : Int) - d.log2
      then decide (d * twoPow ((n.log2 : Int) - d.log2).toNat ≤ n)
      else decide (d ≤ n * twoPow (-((n.log2 : Int) - d.log2)).toNat)) = true ↔
        2 ^ ((n.log2 : Int) - d.log2) ≤ (n : ℚ) / d := by
    generalize (n.log2 : Int) - d.log2 = e
    rw [le_div_iff₀ hd']
    by_cases he : 0 ≤ e
    · rw [if_pos he, decide_eq_true_iff]
      obtain ⟨j, rfl⟩ := Int.eq_ofNat_of_zero_le he
      rw [zpow_natCast, mul_comm]
      exact_mod_cast Iff.rfl
    · rw [if_neg he, decide_eq_true_iff]
      obtain ⟨j, rfl⟩ := Int.exists_eq_neg_ofNat (Int.le_of_not_le he)
      rw [Int.neg_neg, zpow_neg, zpow_natCast, inv_mul_le_iff₀ (by positivity),
        mul_comm]
      exact_mod_cast Iff.rfl
  unfold log2Floor
  dsimp only
  by_cases h : 2 ^ ((n.log2 : Int) - d.log2) ≤ (n : ℚ) / d
  · rw [if_pos (hreached.mpr h)]
    exact ⟨h, hhigh⟩
  · rw [if_neg (mt hreached.mp h), Int.sub_add_cancel]
    exact ⟨hlow, not_le.mp h⟩

-- =================================================================== rounding

/-- A number with more than `k` bits is at least the power of two. -/
private theorem le_of_bits (h : 2 ^ k ≤ m) (e : Int) :
    2 ^ (e + k) ≤ (m : ℚ) * 2 ^ e := by
  rw [zpow_two_add, mul_comm]
  exact mul_le_mul_of_nonneg_right (by exact_mod_cast h) (by positivity)

/-- A number of at most `k` bits is less. -/
private theorem lt_of_bits (h : m < 2 ^ k) (e : Int) :
    (m : ℚ) * 2 ^ e < 2 ^ (e + k) := by
  rw [zpow_two_add, mul_comm _ ((2 : ℚ) ^ k)]
  exact mul_lt_mul_of_pos_right (by exact_mod_cast h) (by positivity)

/-- The units that a quotient is rounded to: they have 53 bits, unless the
exponent is the least one. -/
private theorem units_bounds (hn : 0 < n) (hd : 0 < d)
    (he : e = max (log2Floor n d - 52) (-1074)) :
    units n d e ≤ 2 ^ 53 ∧
      (e = -1074 ∨
        2 ^ 52 ≤ units n d e ∧ 2 ^ (e + (52 : Nat)) ≤ (n : ℚ) / d) := by
  obtain ⟨hlow, hhigh⟩ := log2Floor_spec hn hd
  constructor
  · refine units_le hd (hhigh.le.trans (le_trans ?_ (le_of_bits le_rfl e)))
    exact zpow_le_zpow_right₀ one_le_two (by push_cast; omega)
  · by_cases hleast : e = -1074
    · exact .inl hleast
    · have hlow' : (2 : ℚ) ^ (e + (52 : Nat)) ≤ n / d := by
        rwa [show e + (52 : Nat) = log2Floor n d by push_cast; omega]
      refine .inr ⟨le_units hd (le_of_eq_of_le ?_ hlow'), hlow'⟩
      rw [zpow_two_add, Nat.cast_pow, Nat.cast_ofNat, mul_comm]

/-- No magnitude is passed when a quotient is rounded to whole units: those
that have smaller ones are below it. -/
theorem rounds_units (hn : 0 < n) (hd : 0 < d)
    (he : e = max (log2Floor n d - 52) (-1074)) :
    Rounds (n / d) (units n d e) e := by
  obtain ⟨-, hbits⟩ := units_bounds hn hd he
  have hgrid : ∀ {g}, IsMagnitude g → (∃ k : Nat, g = k * 2 ^ e) ∨
      g < (n : ℚ) / d ∧ g ≤ units n d e * (2 : ℚ) ^ e := by
    rintro g ⟨m, e', hm, hleast, -, rfl⟩
    rcases le_or_gt e e' with hcoarse | hfine
    · obtain ⟨j, rfl⟩ := Int.le.dest hcoarse
      refine .inl ⟨m * 2 ^ j, ?_⟩
      rw [zpow_two_add, Nat.cast_mul, Nat.cast_pow, Nat.cast_ofNat]
      ring
    · obtain ⟨hfull, hlow⟩ := hbits.resolve_left (by omega)
      have hsmall : (m : ℚ) * 2 ^ e' < 2 ^ (e + (52 : Nat)) :=
        (lt_of_bits hm e').trans_le
          (zpow_le_zpow_right₀ one_le_two (by push_cast; omega))
      exact .inr ⟨hsmall.trans_le hlow, hsmall.le.trans (le_of_bits hfull e)⟩
  constructor
  · intro g hg hle
    rcases hgrid hg with ⟨k, rfl⟩ | ⟨hlt, -⟩
    · exact mul_le_mul_of_nonneg_right (by exact_mod_cast units_le hd hle)
        (by positivity)
    · exact absurd hle (not_le.mpr hlt)
  · intro g hg hle
    rcases hgrid hg with ⟨k, rfl⟩ | ⟨-, hsmall⟩
    · exact mul_le_mul_of_nonneg_right (by exact_mod_cast le_units hd hle)
        (by positivity)
    · exact hsmall

/-- Units of 53 bits are those of a number of the format, or beyond all
magnitudes. -/
private theorem ofParts_cases (negative : Bool) (hm : m ≤ 2 ^ 53)
    (hleast : -1074 ≤ e) (hbits : e = -1074 ∨ 2 ^ 52 ≤ m) :
    (∃ m' e' h, ofParts negative m e = .finite negative m' e' h ∧
      (m' : ℚ) * 2 ^ e' = m * 2 ^ e) ∨
    ofParts negative m e = .infinite negative ∧ ∀ g,
        IsMagnitude g → g < m * (2 : ℚ) ^ e := by
  unfold ofParts
  by_cases hfits : Canonical m e
  · rw [dif_pos hfits]
    exact .inl ⟨m, e, hfits, rfl, rfl⟩
  rw [dif_neg hfits]
  by_cases hcarried : Canonical (m / 2) (e + 1)
  · rw [dif_pos hcarried]
    refine .inl ⟨m / 2, e + 1, hcarried, rfl, ?_⟩
    -- only the carry into a 54th bit does not fit
    obtain rfl : m = 2 ^ 53 := by
      by_contra hne
      refine hfits ⟨Nat.lt_of_le_of_ne hm hne, hleast, ?_, hbits.symm⟩
      exact (Int.le_add_one (Int.le_refl e)).trans hcarried.2.2.1
    rw [zpow_add_one₀ two_ne_zero]
    norm_num
    ring
  · rw [dif_neg hcarried]
    refine .inr ⟨rfl, ?_⟩
    have hlarge : (2 : ℚ) ^ ((971 : Int) + (53 : Nat)) ≤ m * 2 ^ e := by
      rcases Nat.lt_or_ge m (2 ^ 53) with hlt | hge
      · have he : 971 < e := by
          by_contra hle
          exact hfits ⟨hlt, hleast, Int.not_lt.mp hle, hbits.symm⟩
        refine le_trans ?_ (le_of_bits (hbits.resolve_left (by omega)) e)
        exact zpow_le_zpow_right₀ one_le_two (by push_cast; omega)
      · have he : 971 ≤ e := by
          by_contra hlt
          obtain rfl := Nat.le_antisymm hm hge
          exact hcarried ⟨by decide, by omega, by omega, .inl (by decide)⟩
        exact le_trans (zpow_le_zpow_right₀ one_le_two (by omega))
          (le_of_bits hge e)
    rintro g ⟨m', e', hm', -, hgreatest, rfl⟩
    refine ((lt_of_bits hm' e').trans_le ?_).trans_le hlarge
    exact zpow_le_zpow_right₀ one_le_two (by omega)

/-- The nearest number to a quotient is on the same side of all magnitudes, or
it is infinite and no magnitude reaches the quotient. -/
theorem ofQuotient_cases (negative : Bool) (n : Nat) (hd : 0 < d) :
    (∃ m e h, ofQuotient negative n d = .finite negative m e h ∧
      Rounds (n / d) m e) ∨
    ofQuotient negative n d = .infinite negative ∧ ∀ g,
        IsMagnitude g → g < (n : ℚ) / d := by
  unfold ofQuotient
  by_cases hn : n = 0
  · rw [if_pos hn, hn, Nat.cast_zero, zero_div]
    refine .inl ⟨0, -1074, by decide, rfl, fun hg _ => ?_, fun _ hle => ?_⟩
    · rw [Nat.cast_zero, zero_mul]
      exact hg.nonneg
    · rwa [Nat.cast_zero, zero_mul]
  · rw [if_neg hn]
    show (∃ m e h,
        ofParts negative (units n d (max (log2Floor n d - 52) (-1074))) _
          = .finite negative m e h ∧ _) ∨
      ofParts negative (units n d (max (log2Floor n d - 52) (-1074))) _
          = .infinite negative ∧ _
    have hpos := Nat.pos_of_ne_zero hn
    obtain ⟨hm, hbits⟩ := units_bounds hpos hd rfl
    have hrounds := rounds_units hpos hd rfl
    rcases ofParts_cases negative hm (le_max_right _ _)
        (hbits.imp_right And.left) with
      ⟨m, e, h, hparts, hsame⟩ | ⟨hparts, hbeyond⟩
    · refine .inl ⟨m, e, h, hparts, fun hg hle => ?_, fun hg hle => ?_⟩
      · rw [hsame]
        exact hrounds.le hg hle
      · rw [hsame]
        exact hrounds.ge hg hle
    · refine .inr ⟨hparts, fun g hg => ?_⟩
      by_contra hreaches
      exact absurd (hbeyond g hg)
        (not_lt.mpr (hrounds.le hg (not_lt.mp hreaches)))

/-- Magnitudes that are next to a whole number of `53 - k` bits differ by a
unit of `k` places behind the binary point at least. -/
theorem IsMagnitude.apart (hg : IsMagnitude g) (hk : k ≤ 52) {c : Nat}
    (hc : 2 ^ (52 - k) < c) :
    (g < c → g + 1 / 2 ^ k ≤ c) ∧ (c < g → c + 1 / 2 ^ k ≤ g) := by
  obtain ⟨m, e, hm, -, -, rfl⟩ := hg
  have hpos : (0 : ℚ) < 2 ^ k := by positivity
  rcases le_or_gt (-(k : Int)) e with hcoarse | hfine
  · obtain ⟨j, hj⟩ := Int.le.dest hcoarse
    -- both are whole in these units
    have hwhole : (m : ℚ) * 2 ^ e * 2 ^ k = (m * 2 ^ j : Nat) := by
      rw [mul_assoc, ← zpow_two_add,
        show e + (k : Int) = j by omega, zpow_natCast]
      push_cast
      ring
    constructor
    · intro hlt
      rw [← mul_lt_mul_iff_left₀ hpos, hwhole] at hlt
      rw [← mul_le_mul_iff_left₀ hpos, add_mul, hwhole, one_div,
        inv_mul_cancel₀ hpos.ne']
      have hnat : m * 2 ^ j < c * 2 ^ k := by exact_mod_cast hlt
      exact_mod_cast hnat
    · intro hlt
      rw [← mul_lt_mul_iff_left₀ hpos, hwhole] at hlt
      rw [← mul_le_mul_iff_left₀ hpos, add_mul, hwhole, one_div,
        inv_mul_cancel₀ hpos.ne']
      have hnat : c * 2 ^ k < m * 2 ^ j := by exact_mod_cast hlt
      exact_mod_cast hnat
  · have hsmall : (m : ℚ) * 2 ^ e < 2 ^ (52 - k) := by
      refine (lt_of_bits hm e).trans_le ?_
      rw [← zpow_natCast]
      exact zpow_le_zpow_right₀ one_le_two (by push_cast [hk]; omega)
    have hc' : (2 : ℚ) ^ (52 - k) + 1 ≤ c := by exact_mod_cast hc
    refine ⟨fun _ => ?_, fun hlt => ?_⟩
    · have hunit : (1 : ℚ) / 2 ^ k ≤ 1 := by
        rw [div_le_one hpos]
        exact one_le_pow₀ one_le_two
      linarith
    · linarith

-- ================================================================= operations

/-- A number divided by a natural one is the rounded quotient, or infinite if
there is no number of the format up there. -/
theorem divideBy_cases (negative : Bool) (h : Canonical m e) (hk : 0 < k) :
    (∃ m' e' h',
      (Binary64.finite negative m e h).divideBy k = .finite negative m' e' h' ∧
      Rounds (m * 2 ^ e / k) m' e') ∨
    (Binary64.finite negative m e h).divideBy k = .infinite negative ∧
      ∀ g, IsMagnitude g → g < (m : ℚ) * 2 ^ e / k := by
  obtain ⟨hterms, hvalue⟩ := terms_eq m e
  have hquotient : ((terms m e).1 : ℚ) / ((terms m e).2 * k : Nat)
      = m * 2 ^ e / k := by
    rw [Nat.cast_mul, ← div_div, hvalue]
  rw [← hquotient]
  exact ofQuotient_cases negative (terms m e).1 (Nat.mul_pos hterms hk)

/-- The same for a product. -/
theorem timesNat_cases (negative : Bool) (h : Canonical m e) (k : Nat) :
    (∃ m' e' h',
      (Binary64.finite negative m e h).timesNat k = .finite negative m' e' h' ∧
      Rounds (m * 2 ^ e * k) m' e') ∨
    (Binary64.finite negative m e h).timesNat k = .infinite negative ∧
      ∀ g, IsMagnitude g → g < (m : ℚ) * 2 ^ e * k := by
  obtain ⟨hterms, hvalue⟩ := terms_eq m e
  have hquotient : (((terms m e).1 * k : Nat) : ℚ) / (terms m e).2
      = m * 2 ^ e * k := by
    rw [Nat.cast_mul, mul_div_right_comm, hvalue]
  rw [← hquotient]
  exact ofQuotient_cases negative ((terms m e).1 * k) hterms

/-- The nearest integer is on the same side of all others. -/
theorem exists_nearest (negative : Bool) (h : Canonical m e) : ∃ k : Nat,
    (Binary64.finite negative m e h).nearest
        = (if negative then -(k : Int) else k) ∧
      ∀ j : Nat, (m * (2 : ℚ) ^ e ≤ j → k ≤ j) ∧
        (j ≤ m * (2 : ℚ) ^ e → j ≤ k) := by
  obtain ⟨hterms, hvalue⟩ := terms_eq m e
  rw [← hvalue]
  exact ⟨divideEven (terms m e).1 (terms m e).2, rfl, fun j =>
    ⟨divideEven_le hterms, le_divideEven hterms⟩⟩

/-- The integer part and the rest are those of the terms. -/
theorem truncate?_finite (h : Canonical m e) :
    (Binary64.finite negative m e h).truncate?
      = some (if negative then -(((terms m e).1 / (terms m e).2 : Nat) : Int)
      else ((terms m e).1 / (terms m e).2 : Nat)) := rfl

/-- The fraction of a finite number is what its division by its denominator
leaves. -/
theorem fraction_finite (h : Canonical m e) :
    (Binary64.finite negative m e h).fraction
      = ofQuotient negative ((terms m e).1 % (terms m e).2) (terms m e).2 :=
        rfl

end GraphMapper.Binary64

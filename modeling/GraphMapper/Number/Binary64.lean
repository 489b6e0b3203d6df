/-
Floating-point numbers of the binary64 format, as exact values. A finite number
is a sign, a significand below `2 ^ 53` and a power of two; every operation
computes with integers and rounds once, to the nearest number of the format
and, of two equally near, to the one with the even significand. So each result
is decided by arithmetic on integers alone.

A NaN carries a payload, which nothing shows but by which one NaN can be told
from another. A NaN that is computed or read from text has the payload zero.
-/
import GraphMapper.Number.Ratio

namespace GraphMapper

/-- The pairs of significand and exponent that the format has, one for each
magnitude: the significand uses all 53 bits unless the exponent is the least
one. -/
def Binary64.Canonical (m : Nat) (e : Int) : Prop :=
  m < twoPow 53 ∧ -1074 ≤ e ∧ e ≤ 971 ∧ (twoPow 52 ≤ m ∨ e = -1074)

instance Binary64.Canonical.decidable (m : Nat) (e : Int) :
    Decidable (Binary64.Canonical m e) :=
  inferInstanceAs (Decidable (_ ∧ _ ∧ _ ∧ (_ ∨ _)))

inductive Binary64 where
  | nan (payload : Nat)
  | infinite (negative : Bool)
  | finite (negative : Bool) (significand : Nat) (exponent : Int)
      (canonical : Binary64.Canonical significand exponent)

namespace Binary64

def zero (negative : Bool) : Binary64 := .finite negative 0 (-1074) (by decide)

-- ============================================================== rounding

/-- The quotient rounded to the nearest integer, a half to the even
neighbour. -/
def divideEven (n d : Nat) : Nat :=
  let q := n / d
  let r := n % d
  if d < 2 * r || (2 * r == d && q % 2 == 1) then q + 1 else q

/-- The greatest `e` with `2 ^ e ≤ n / d`, for positive `n` and `d`. -/
def log2Floor (n d : Nat) : Int :=
  let e : Int := (n.log2 : Int) - (d.log2 : Int)
  let reached := if 0 ≤ e then decide (d * twoPow e.toNat ≤ n)
    else decide (d ≤ n * twoPow (-e).toNat)
  if reached then e else e - 1

/-- A significand of at most 53 bits with its exponent as a number of the
format. A significand that rounding has carried to `2 ^ 53` moves one exponent
up; beyond the greatest exponent lies infinity. -/
def ofParts (negative : Bool) (m : Nat) (e : Int) : Binary64 :=
  if h : Canonical m e then .finite negative m e h
  else if h : Canonical (m / 2) (e + 1) then .finite negative (m / 2) (e + 1) h
  else .infinite negative

/-- The number of the format that is nearest to `n / d`, with the given
sign. -/
def ofQuotient (negative : Bool) (n d : Nat) : Binary64 :=
  if n = 0 then zero negative
  else
    let e := max (log2Floor n d - 52) (-1074)
    let m := if 0 ≤ e then divideEven n (d * twoPow e.toNat)
      else divideEven (n * twoPow (-e).toNat) d
    ofParts negative m e

/-- The nearest number to an integer; `none` where that would be infinity. -/
def ofInt? (n : Int) : Option Binary64 :=
  match ofQuotient (n < 0) n.natAbs 1 with
  | .infinite _ => none
  | x => some x

/-- The nearest number to `digits * 10 ^ e`. The exponent is looked at before
any power is computed: what has its first digit far outside the range is zero
or infinity at once. -/
def ofDecimal (negative : Bool) (digits : Nat) (e : Int) : Binary64 :=
  let size := (Nat.toDigits 10 digits).length
  if digits = 0 then zero negative
  else if e + size > 310 then .infinite negative
  else if e + size < -330 then zero negative
  else if 0 ≤ e then ofQuotient negative (digits * tenPow e.toNat) 1
  else ofQuotient negative digits (tenPow (-e).toNat)

-- ============================================================== views

def isNaN : Binary64 → Bool
  | .nan _ => true
  | _ => false

/-- Two NaNs with one payload. -/
def isSameNaN : Binary64 → Binary64 → Bool
  | .nan a, .nan b => a == b
  | _, _ => false

/-- Positive or negative zero. -/
def isZero : Binary64 → Bool
  | .finite _ m _ _ => m == 0
  | _ => false

/-- The place on the number line; a NaN has none. -/
def position? : Binary64 → Option Position
  | .nan _ => none
  | .infinite negative => some (if negative then .bottom else .top)
  | .finite negative m e _ =>
      some (.finite (.scaled (if negative then -(m : Int) else m) e))

/-- A magnitude as numerator and denominator. -/
def terms (m : Nat) (e : Int) : Nat × Nat :=
  if 0 ≤ e then (m * twoPow e.toNat, 1) else (m, twoPow (-e).toNat)

/-- The integer part, toward zero; `none` for NaN and the infinities. -/
def truncate? : Binary64 → Option Int
  | .finite negative m e _ =>
    let (n, d) := terms m e
    some (if negative then -((n / d : Nat) : Int) else ((n / d : Nat) : Int))
  | _ => none

-- ========================================================== arithmetic

/-- Division by a positive integer. -/
def divideBy (x : Binary64) (k : Nat) : Binary64 :=
  match x with
  | .finite negative m e _ =>
      let (n, d) := terms m e; ofQuotient negative n (d * k)
  | x => x

/-- Multiplication by a positive integer. -/
def timesNat (x : Binary64) (k : Nat) : Binary64 :=
  match x with
  | .finite negative m e _ =>
      let (n, d) := terms m e; ofQuotient negative (n * k) d
  | x => x

/-- What is left of a finite number when its integer part is taken away; it has
the number's sign and is exact. -/
def fraction (x : Binary64) : Binary64 :=
  match x with
  | .finite negative m e _ =>
      let (n, d) := terms m e; ofQuotient negative (n % d) d
  | x => x

/-- The nearest integer, a half to the even neighbour; zero for NaN and the
infinities. -/
def nearest (x : Binary64) : Int :=
  match x with
  | .finite negative m e _ =>
    let (n, d) := terms m e
    if negative then -((divideEven n d : Nat) : Int)
    else ((divideEven n d : Nat) : Int)
  | _ => 0

end Binary64

end GraphMapper

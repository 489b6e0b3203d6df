/-
The decimal text of a floating-point number: the fewest digits that read back
as the same number, and of these the nearest ones to its value.

The reals that round to a number form an interval around it. For 1, 2, … 17
digits the two points of that decimal grid next to the value are tested; the
first grid with a point in the interval wins. No other point of a grid can be
in the interval when neither of these two is, so no shorter text reads back.
Seventeen digits always suffice.
-/
import GraphMapper.Number.Binary64

namespace GraphMapper

/-- A positive decimal `digits * 10 ^ exponent`. -/
structure Decimal where
  digits : Nat
  exponent : Int

namespace Decimal

/-- The greatest `k` with `10 ^ k ≤ n / d`, searched downward from `start`
within `fuel` places. -/
def log10Floor (n d : Nat) : Nat → Int → Int
  | 0, k => k
  | fuel + 1, k =>
    let reached := if 0 ≤ k then decide (d * tenPow k.toNat ≤ n)
      else decide (d ≤ n * tenPow (-k).toNat)
    if reached then k else log10Floor n d fuel (k - 1)

/-- The same decimal without zeros at the end of its digits. -/
def trimmed : Nat → Nat → Int → Decimal
  | 0, digits, e => ⟨digits, e⟩
  | fuel + 1, digits, e =>
    if digits % 10 == 0 && digits != 0 then trimmed fuel (digits / 10) (e + 1)
    else ⟨digits, e⟩

/-- The nearest of the grid points `c` and `c + 1` (in units of `unit`) to
`value` that is between `low` and `high`; a tie goes to the even one. -/
def gridPoint? (low value high unit : Nat) (ends : Bool) : Option Nat :=
  let c := value / unit
  let inside (p : Nat) : Bool :=
    if ends then decide (low ≤ p) && decide (p ≤ high) else decide (low < p) &&
      decide (p < high)
  let lower := inside (c * unit) && c != 0
  let upper := inside ((c + 1) * unit)
  let r := value % unit
  if lower && upper then
    some (if 2 * r < unit || (2 * r == unit && c % 2 == 0) then c else c + 1)
  else if lower then some c
  else if upper then some (c + 1)
  else none

/-- The first grid of at most `fuel` further digits, from `n` digits on, that
has a point in the interval; `top` is the place of the first digit of `value /
den`. -/
def search (low value high den : Nat) (ends : Bool) (top : Int) :
    Nat → Nat → Option Decimal
  | 0, _ => none
  | fuel + 1, n =>
    let e : Int := top + 1 - n
    let scale := tenPow e.natAbs
    let point :=
      if 0 ≤ e then gridPoint? low value high (den * scale) ends
      else gridPoint? (low * scale) (value * scale) (high * scale) den ends
    match point with
    | some c => some (trimmed 20 c e)
    | none => search low value high den ends top fuel (n + 1)

/-- The shortest decimal that reads back as `m * 2 ^ e`, for a positive
canonical magnitude. The interval ends half-way to the neighbours, a quarter of
the step below a power of two; its ends read back to the number when the
significand is even. -/
def ofMagnitude (m : Nat) (e : Int) : Decimal :=
  let below := if m == twoPow 52 && e != -1074 then 1 else 2
  let scale := twoPow (e - 2).natAbs
  let (up, den) : Nat × Nat := if 0 ≤ e - 2 then (scale, 1) else (1, scale)
  let value := 4 * m * up
  let top := log10Floor value den 700 310
  (search ((4 * m - below) * up) value ((4 * m + 2) * up) den (m % 2
      == 0) top 20 1).getD ⟨m, e⟩

end Decimal

/-- How decimals are laid out. Numbers whose first digit stands at a place from
`low` up to, not including, `high` are written positionally and always with a
fraction; the others have one digit before the point and an exponent of at
least two digits with its sign. -/
structure DecimalLayout where
  low : Int
  high : Int
  notANumber : String
  infinity : String

namespace DecimalLayout

/-- The layout of numbers in messages. -/
def plain : DecimalLayout := ⟨-4, 16, "nan", "inf"⟩

/-- The layout of numbers in JSON. -/
def json : DecimalLayout := ⟨-4, 16, "NaN", "Infinity"⟩

/-- A positive decimal in the layout. -/
def magnitude (layout : DecimalLayout) (x : Decimal) : String :=
  let ds := Nat.toDigits 10 x.digits
  let place : Int := ds.length + x.exponent - 1
  if layout.low ≤ place && place < layout.high then
    if place < 0 then
      String.ofList
        ('0' :: '.' :: (List.replicate (-place - 1).toNat '0' ++ ds))
    else
      let whole := ds.take (place.toNat + 1)
      let zeros := List.replicate (place.toNat + 1 - ds.length) '0'
      let frac := ds.drop (place.toNat + 1)
      String.ofList
        (whole ++ zeros ++ '.' :: (if frac.isEmpty then ['0'] else frac))
  else
    let exponent := Nat.toDigits 10 place.natAbs
    let pad := List.replicate (2 - exponent.length) '0'
    let frac := ds.drop 1
    String.ofList (ds.take 1 ++ (if frac.isEmpty then [] else '.' :: frac) ++
      'e' :: (if place < 0 then '-' else '+') :: (pad ++ exponent))

/-- A number in the layout. -/
def text (layout : DecimalLayout) : Binary64 → String
  | .nan _ => layout.notANumber
  | .infinite negative => (if negative then "-" else "") ++ layout.infinity
  | .finite negative m e _ =>
    let sign := if negative then "-" else ""
    if m = 0 then sign ++ "0.0" else sign
      ++ layout.magnitude (.ofMagnitude m e)

end DecimalLayout

end GraphMapper

/-
Exact positions on the number line. Integers and finite floating-point numbers
both have one, and the two kinds are compared by it, never by converting one
into the other: a conversion would round and make distinct numbers equal.
-/
namespace GraphMapper

def twoPow (n : Nat) : Nat := Nat.pow 2 n

def tenPow (n : Nat) : Nat := Nat.pow 10 n

theorem twoPow_pos (n : Nat) : 0 < twoPow n := Nat.pow_pos (by decide)

/-- A quotient of an integer and a positive number, not reduced. -/
structure Ratio where
  num : Int
  den : Nat
  den_pos : 0 < den

namespace Ratio

def ofInt (n : Int) : Ratio := ⟨n, 1, Nat.one_pos⟩

/-- `a < b`, by cross-multiplication. -/
def lt (a b : Ratio) : Bool :=
  decide (a.num * (b.den : Int) < b.num * (a.den : Int))

/-- Equality of value: equal quotients may have different terms. -/
def beq (a b : Ratio) : Bool :=
  decide (a.num * (b.den : Int) = b.num * (a.den : Int))

/-- `c * 2 ^ e` as a quotient. -/
def scaled (c : Int) (e : Int) : Ratio :=
  if 0 ≤ e then ⟨c * (twoPow e.toNat : Int), 1, Nat.one_pos⟩
  else ⟨c, twoPow (-e).toNat, twoPow_pos _⟩

end Ratio

/-- A place on the number line with its two ends. -/
inductive Position where
  | bottom
  | finite (r : Ratio)
  | top

namespace Position

def lt : Position → Position → Bool
  | .bottom, .bottom => false
  | .bottom, _ => true
  | .finite a, .finite b => a.lt b
  | .finite _, .top => true
  | _, _ => false

def beq : Position → Position → Bool
  | .bottom, .bottom => true
  | .finite a, .finite b => a.beq b
  | .top, .top => true
  | _, _ => false

end Position

end GraphMapper

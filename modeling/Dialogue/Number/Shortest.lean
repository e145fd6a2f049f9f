/-!
# Shortest decimals

Every positive finite double has decimals that no other double is nearer to. The
*shortest* of them has the fewest digits, and among those it is the nearest to the
double, a tie going up.

A double is `m · 2^e`. The reals that round to it form an interval around it, whose
ends belong to it iff `m` is even. A decimal grid holds the multiples of one power of
ten; if any of them lies in the interval, so does one of the double's two neighbours
on the grid. Hence the shortest decimal is found on the first grid, from coarse to
fine, where a neighbour lies in the interval.
-/

namespace Dialogue.Number

/-- The number `digits · 10 ^ exponent`. -/
structure Decimal where
  /-- The digits, read as a whole number. -/
  digits : Nat
  /-- The power of ten they are scaled by. -/
  exponent : Int
  deriving DecidableEq

/-- The lowest mantissa of a double that is not subnormal. The fifty-two bits below it
    are the ones that a double stores. -/
def leadingBit : Nat := 0x10000000000000

/-- The bit of a double that stores its sign. -/
def signBit : Nat := 0x8000000000000000

/-- The bits of a double, its sign left out. -/
def unsignedBits (x : Float) : Nat := x.toBits.toNat % signBit

/-- The bits of infinity. Those of a finite double are below. -/
def infinityBits : Nat := 0x7ff0000000000000

/-- The mantissa and the power of two of a finite double, its sign left out. -/
def mantissaExponent (x : Float) : Nat × Int :=
  let fraction : Nat := unsignedBits x % leadingBit
  let exponent : Nat := unsignedBits x / leadingBit
  -- Subnormal numbers have the lowest exponent as well, but no leading bit.
  if exponent = 0 then (fraction, -1074) else (fraction + leadingBit, (exponent : Int) - 1075)

/-- The interval of the reals that round to a double, in quarters of the unit of its
    last place. -/
structure Rounding where
  /-- The lower end. -/
  low : Nat
  /-- The double itself. -/
  mid : Nat
  /-- The upper end. -/
  high : Nat
  /-- Do the ends round to the double as well? -/
  closed : Bool
  /-- The power of two that one quarter stands for. -/
  exponent : Int

/-- The interval around `m · 2^e`. Below a power of two the doubles are twice as dense,
    except at the smallest exponent. -/
def Rounding.of (m : Nat) (e : Int) : Rounding where
  low := if m = leadingBit && e ≠ -1074 then 4 * m - 1 else 4 * m - 2
  mid := 4 * m
  high := 4 * m + 2
  closed := m % 2 = 0
  exponent := e - 2

/-- A quarter of the unit of the last place, in a measure that it has in common with `10^g`. -/
def Rounding.quarter (r : Rounding) (g : Int) : Nat :=
  Nat.pow 2 r.exponent.toNat * Nat.pow 10 (-g).toNat

/-- The step of the grid of multiples of `10^g`, in the same measure. -/
def Rounding.step (r : Rounding) (g : Int) : Nat :=
  Nat.pow 2 (-r.exponent).toNat * Nat.pow 10 g.toNat

/-- Does the number of so many steps lie in the interval? -/
def Rounding.inside (r : Rounding) (g : Int) (c : Nat) : Bool :=
  if r.closed then r.low * r.quarter g ≤ c * r.step g && c * r.step g ≤ r.high * r.quarter g
  else r.low * r.quarter g < c * r.step g && c * r.step g < r.high * r.quarter g

/-- The neighbour on the grid of multiples of `10^g` that stands for the double: the
    nearer of the two if both lie in the interval. -/
def Rounding.onGrid? (r : Rounding) (g : Int) : Option Decimal :=
  let mid := r.mid * r.quarter g
  let below := mid / r.step g
  let neighbours :=
    if 2 * mid < (2 * below + 1) * r.step g then [below, below + 1] else [below + 1, below]
  (neighbours.find? (r.inside g)).map (⟨·, g⟩)

/-- The coarsest grid that is tried for `m · 2^e`: it is coarser than the double. -/
def coarsestGrid (m : Nat) (e : Int) : Int :=
  -- The double is below 2 ^ (m.log2 + e + 1), and log₁₀ 2 is a little less than 0.30103.
  ((m.log2 : Int) + e + 1) * 30103 / 100000 + 1

/-- The shortest decimal of a positive finite double. The seventeenth digit is always
    enough. -/
def shortest (x : Float) : Decimal :=
  let (m, e) := mantissaExponent x
  ((List.range 20).findSome? fun (i : Nat) =>
    (Rounding.of m e).onGrid? (coarsestGrid m e - (i : Nat))).getD ⟨0, 0⟩

end Dialogue.Number

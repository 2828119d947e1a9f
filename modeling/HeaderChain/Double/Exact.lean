/-!
# Exact Values of Doubles

A double taken apart into the dyadic rational it stands for, so that
rounding and printing are done on natural numbers.

The bits of a finite double give a sign, a significand below `2 ^ 53` and a
power of two, and its value is `± significand * 2 ^ power`. Everything else
in this folder starts from that triple and never from an operation on
doubles.

## Main definitions

* `Exact`: Sign, significand and power of two.
* `Exact.ofDouble`: The exact value of a double.
* `Exact.round`: The nearest integer, a half going away from zero.
* `Exact.clamp`: The nearest integer within given bounds.
-/

namespace HeaderChain

namespace Double

/-- A dyadic rational, `± significand * 2 ^ power`. -/
structure Exact where
  /-- Whether the sign is a minus. -/
  negative : Bool
  /-- The significand. -/
  significand : Nat
  /-- The power of two it is multiplied by. -/
  power : Int
  deriving DecidableEq

namespace Exact

/-- The exact value that a double's bits stand for. The largest exponent is
    read like any other, so infinities count as a value beyond every finite
    one. Bits that stand for no number count as zero. -/
def ofBits (bits : UInt64) : Exact :=
  let n := bits.toNat
  let field : Nat := n / Nat.pow 2 52 % Nat.pow 2 11
  let fraction : Nat := n % Nat.pow 2 52
  { negative := Nat.pow 2 63 ≤ n
    significand :=
      if field = 2047 ∧ fraction ≠ 0 then 0
      else if field = 0 then fraction
      else Nat.pow 2 52 + fraction
    power := if field = 0 then -1074 else (field : Int) - 1075 }

/-- The exact value of a double. -/
def ofDouble (x : Float) : Exact :=
  ofBits x.toBits

/-- The magnitude rounded to the nearest natural number, a half going
    up. -/
def magnitude (x : Exact) : Nat :=
  if 0 ≤ x.power then x.significand * Nat.pow 2 x.power.toNat
  else (2 * x.significand + Nat.pow 2 (-x.power).toNat) / Nat.pow 2 ((-x.power).toNat + 1)

/-- The nearest integer, a half going away from zero. -/
def round (x : Exact) : Int :=
  if x.negative then -(x.magnitude : Int) else x.magnitude

/-- The nearest integer, held within `low` and `high`. -/
def clamp (low high : Int) (x : Exact) : Int :=
  max low (min high x.round)

end Exact

end Double

end HeaderChain

import HeaderChain.Json.Tree
import HeaderChain.Text.Decimal

/-!
# JSON Numbers

The numerals of JSON and the values they name.

A plain numeral that fits 64 bits, signed or not, names an integer. Any
other names a double: the digits are gathered into a 64-bit significand for
as long as they fit, later ones only move the decimal point, and the
significand is then multiplied or divided once by a power of ten. That is
the nearest double for every numeral of moderate length, and it is the same
double on every machine for all of them.

## Main definitions

* `Numeral`: A numeral, taken apart.
* `numeral?`: Takes a numeral off the front of a text.
* `Numeral.toJson`: The value a numeral names.
-/

namespace HeaderChain

namespace Json

/-- A numeral: sign, digits before the point, digits after it, and the
    exponent if one is written. -/
structure Numeral where
  /-- Whether it starts with a minus sign. -/
  negative : Bool
  /-- The digits before the point. -/
  whole : List Char
  /-- The digits after the point, if one is written. -/
  fraction : Option (List Char)
  /-- The sign and the digits of the exponent, if one is written. -/
  exponent : Option (Bool × List Char)

/-- Takes the digits off the front of a text. -/
def digitRun (cs : List Char) : List Char × List Char :=
  (cs.takeWhile Decimal.isDigit, cs.dropWhile Decimal.isDigit)

/-- Takes one digit or more off the front of a text. -/
def someDigits? (cs : List Char) : Option (List Char × List Char) :=
  match digitRun cs with
  | ([], _) => none
  | run => some run

/-- Takes the digits before the point. There is at least one, and a leading
    zero stands alone. -/
def whole? (cs : List Char) : Option (List Char × List Char) :=
  match digitRun cs with
  | ([], _) => none
  | ('0' :: _ :: _, _) => none
  | run => some run

/-- Takes a point and the digits after it, if the text starts with one. -/
def fraction? (cs : List Char) : Option (Option (List Char) × List Char) :=
  match cs with
  | '.' :: cs => (someDigits? cs).map fun (ds, rest) => (some ds, rest)
  | cs => some (none, cs)

/-- Takes the sign of an exponent, which may be left out. -/
def exponentSign (cs : List Char) : Bool × List Char :=
  match cs with
  | '-' :: cs => (true, cs)
  | '+' :: cs => (false, cs)
  | cs => (false, cs)

/-- Takes an exponent, if the text starts with one. -/
def exponent? (cs : List Char) : Option (Option (Bool × List Char) × List Char) :=
  match cs with
  | [] => some (none, [])
  | c :: rest =>
    if c = 'e' ∨ c = 'E' then
      let (negative, rest) := exponentSign rest
      (someDigits? rest).map fun (ds, rest) => (some (negative, ds), rest)
    else some (none, c :: rest)

/-- Takes a minus sign, if there is one. -/
def minusSign (cs : List Char) : Bool × List Char :=
  match cs with
  | '-' :: cs => (true, cs)
  | cs => (false, cs)

/-- Takes a numeral off the front of a text. -/
def numeral? (cs : List Char) : Option (Numeral × List Char) := do
  let (negative, cs) := minusSign cs
  let (whole, cs) ← whole? cs
  let (fraction, cs) ← fraction? cs
  let (exponent, cs) ← exponent? cs
  return (⟨negative, whole, fraction, exponent⟩, cs)

/-- Appends digits to a significand for as long as it fits 64 bits. Gives
    the significand and the digits left over. -/
def gather : Nat → List Char → Nat × List Char
  | n, [] => (n, [])
  | n, d :: ds =>
    let next := n * 10 + Decimal.digitValue d
    if next < UInt64.size then gather next ds else (n, d :: ds)

/-- A power of ten as a double. -/
def powerOfTen (k : Nat) : Float :=
  Float.ofScientific 1 false k

/-- Divides by `10 ^ k`, at most `10 ^ 308` at a time. -/
def divide (x : Float) (k : Nat) : Float :=
  if k ≤ 308 then x / powerOfTen k
  else if x == 0 then x
  else divide (x / powerOfTen 308) (k - 308)
termination_by k
decreasing_by omega

/-- The double `± significand * 10 ^ power`, unless it is too large. -/
def scaled (negative : Bool) (significand : Nat) (power : Int) : Json :=
  let x := (UInt64.ofNat significand).toFloat
  let y :=
    if power < 0 then some (divide x power.natAbs)
    else if power ≤ 308 then
      let y := x * powerOfTen power.toNat
      if y.isInf then none else some y
    else if significand = 0 then some x
    else none
  match y with
  | some y => .real (if negative then -y else y)
  | none => .tooLarge

/-- The double that a numeral names. -/
def Numeral.toReal (n : Numeral) : Json :=
  let (significand, left) := gather 0 n.whole
  let fraction := n.fraction.getD []
  let (significand, cut) := gather significand fraction
  let power : Int := (left.length : Int) - (fraction.length - cut.length : Nat)
  let power := match n.exponent with
    | none => power
    | some (true, ds) => power - Decimal.value ds
    | some (false, ds) => power + Decimal.value ds
  scaled n.negative significand power

/-- The value that a numeral names. Minus zero is not an integer. -/
def Numeral.toJson (n : Numeral) : Json :=
  match n.fraction, n.exponent with
  | none, none =>
    let value := Decimal.value n.whole
    if n.negative then
      if 0 < value ∧ value ≤ Nat.pow 2 63 then .integer (-(value : Int)) else n.toReal
    else if value < UInt64.size then .integer value else n.toReal
  | _, _ => n.toReal

end Json

end HeaderChain

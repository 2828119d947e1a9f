import HeaderChain.Double.Exact
import HeaderChain.Text.Decimal

/-!
# Shortest Decimals

The text of a double: the fewest decimal digits that still name it.

A double stands for every real number that rounds to it, an interval around
its exact value whose ends belong to it when the significand is even. For
one digit, then two, and so on up to seventeen, the value lies between two
neighbouring decimals of that length. The first length at which one of them
falls into the interval is the answer, and of two that do, the nearer is
taken, or of two as near the one with the even digit. All of this is
arithmetic on natural numbers over a common denominator.

## Main definitions

* `Interval`: The reals that round to a double, over one denominator.
* `Decimal`: Digits and the power of ten of the last of them.
* `shortest`: The shortest decimal of a magnitude.
* `text`: A double as text.
-/

namespace HeaderChain

namespace Double

/-- The reals that round to a positive double, as fractions with one
    denominator. -/
structure Interval where
  /-- The numerator of the exact value. -/
  value : Nat
  /-- The numerator of the lower end. -/
  low : Nat
  /-- The numerator of the upper end. -/
  high : Nat
  /-- The common denominator. -/
  denominator : Nat
  /-- Whether the ends belong to the interval. -/
  closed : Bool

/-- The interval around an exact value. Below a power of two the doubles lie
    twice as close, so there the lower end is twice as near. -/
def Interval.around (x : Exact) : Interval :=
  let unit := Nat.pow 2 x.power.toNat
  let below := if x.significand = Nat.pow 2 52 ∧ -1074 < x.power then unit else 2 * unit
  { value := 4 * x.significand * unit
    low := 4 * x.significand * unit - below
    high := 4 * x.significand * unit + 2 * unit
    denominator := 4 * Nat.pow 2 (-x.power).toNat
    closed := x.significand % 2 = 0 }

/-- A decimal number, `digits * 10 ^ power`. -/
structure Decimal where
  /-- The digits, read as one number. -/
  digits : Nat
  /-- The power of ten of the last digit. -/
  power : Int

/-- Whether a decimal lies in an interval. -/
def Interval.holds (i : Interval) (d : Decimal) : Bool :=
  let scaled := d.digits * Nat.pow 10 d.power.toNat * i.denominator
  let shift := Nat.pow 10 (-d.power).toNat
  if i.closed then i.low * shift ≤ scaled && scaled ≤ i.high * shift
  else i.low * shift < scaled && scaled < i.high * shift

/-- The power of ten of the leading digit of `numerator / denominator`,
    which is not zero. -/
def leadingPower (numerator denominator : Nat) : Int :=
  if denominator ≤ numerator then
    ((HeaderChain.Decimal.digits (numerator / denominator)).length : Int) - 1
  else
    -((HeaderChain.Decimal.digits ((denominator - 1) / numerator)).length : Int)

/-- Whether a fraction is rounded down: it lies below the middle between two
    integers, or in the middle and the lower one is even. -/
def roundsDown (numerator denominator : Nat) : Bool :=
  let twice := 2 * (numerator % denominator)
  twice < denominator || (twice == denominator && numerator / denominator % 2 == 0)

/-- The decimal with its last digit at `power` next below a value, and the
    one next above, the nearer of them first. If both are as near, the one
    that ends in an even digit comes first. -/
def neighbours (i : Interval) (power : Int) : List Decimal :=
  let numerator := i.value * Nat.pow 10 (-power).toNat
  let denominator := i.denominator * Nat.pow 10 power.toNat
  let below := numerator / denominator
  if roundsDown numerator denominator then [⟨below, power⟩, ⟨below + 1, power⟩]
  else [⟨below + 1, power⟩, ⟨below, power⟩]

/-- Drops trailing zeros. The fuel bounds their number. -/
def Decimal.trim : Nat → Decimal → Decimal
  | 0, d => d
  | fuel + 1, d =>
    if d.digits ≠ 0 ∧ d.digits % 10 = 0 then trim fuel ⟨d.digits / 10, d.power + 1⟩ else d

/-- The shortest decimal in the interval around a value that is not zero. -/
def shortest (x : Exact) : Decimal :=
  let i := Interval.around x
  let lead := leadingPower i.value i.denominator
  let candidates := (List.range 17).flatMap fun n => neighbours i (lead - (n : Nat))
  match candidates.find? i.holds with
  | some d => d.trim 20
  | none => ⟨0, 0⟩

/-- The text of an exponent: its sign, which is never left out, and its
    digits. -/
def exponentText (e : Int) : List Char :=
  (if e < 0 then '-' else '+') :: HeaderChain.Decimal.digits e.natAbs

/-- The text of a positive decimal. From `10 ^ -5` up to below `10 ^ 16` it
    is written positionally and always with a fraction, beyond that with an
    exponent. -/
def Decimal.text (d : Decimal) : List Char :=
  let ds := HeaderChain.Decimal.digits d.digits
  let lead := d.power + ds.length - 1
  if -5 ≤ lead ∧ lead ≤ 15 then
    if 0 ≤ d.power then ds ++ List.replicate d.power.toNat '0' ++ ['.', '0']
    else if 0 ≤ lead then
      let whole := (lead + 1).toNat
      ds.take whole ++ '.' :: ds.drop whole
    else ['0', '.'] ++ List.replicate (-lead - 1).toNat '0' ++ ds
  else
    match ds with
    | [d] => d :: 'e' :: exponentText lead
    | d :: rest => d :: '.' :: rest ++ 'e' :: exponentText lead
    | [] => []

/-- A double as text, with as few digits as still name it. -/
def text (x : Float) : String :=
  let e := Exact.ofDouble x
  String.ofList ((if e.negative then ['-'] else []) ++
    if e.significand = 0 then ['0', '.', '0'] else (shortest e).text)

end Double

end HeaderChain

/-!
# Decimal Numerals

The written form of whole numbers, and the value of a run of digits.

Every number this library prints, in a message or in JSON, goes through
`digits`, and every number it reads goes through `value`, so the two are
kept side by side: the last digit is the remainder by ten, and reading
folds the digits from the left.

## Main definitions

* `digits`: The decimal digits of a natural number, most significant first.
* `ofNat`, `ofInt`: The same as text, with a minus sign for negatives.
* `value`: The number a run of digits stands for.
-/

namespace HeaderChain

namespace Decimal

/-- The character of a digit below ten. -/
def digit (n : Nat) : Char :=
  Char.ofNat (48 + n)

/-- Whether a character is one of the ten digits. -/
def isDigit (c : Char) : Bool :=
  48 ≤ c.toNat && c.toNat ≤ 57

/-- The value of a digit character. -/
def digitValue (c : Char) : Nat :=
  c.toNat - 48

/-- The decimal digits of `n`, most significant first, without leading
    zeros. Zero itself is written with one digit. -/
def digits (n : Nat) : List Char :=
  if n < 10 then [digit n] else digits (n / 10) ++ [digit (n % 10)]
termination_by n
decreasing_by omega

/-- The number that a run of digits stands for. -/
def value (ds : List Char) : Nat :=
  ds.foldl (fun n d => n * 10 + digitValue d) 0

/-- The digits of an integer, behind a minus sign when it is negative. -/
def intDigits (n : Int) : List Char :=
  if n < 0 then '-' :: digits n.natAbs else digits n.natAbs

/-- A natural number as text. -/
def ofNat (n : Nat) : String :=
  String.ofList (digits n)

/-- An integer as text. -/
def ofInt (n : Int) : String :=
  String.ofList (intDigits n)

end Decimal

end HeaderChain

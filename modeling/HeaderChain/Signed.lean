/-!
# Signed Readings

Nonces and rounds as signed numbers.

Nonces and rounds are unsigned words, but they are compared by distance, and
a distance has a sign. So a word is first read as a signed one: the upper
half of the words stands for the negative numbers. Distances are then exact
integers. They need not fit a signed word themselves, and `Fits` says when
one does.

## Main definitions

* `signed`: The signed reading of a word.
* `distance`: How far one word lies ahead of another.
* `Fits`: An integer is the signed reading of some word.
-/

namespace HeaderChain

/-- The signed reading of a word. -/
def signed (n : UInt64) : Int :=
  if n.toNat < Nat.pow 2 63 then n.toNat else (n.toNat : Int) - UInt64.size

/-- How far `a` lies ahead of `b`, both read as signed. -/
def distance (a b : UInt64) : Int :=
  signed a - signed b

/-- Whether an integer is the signed reading of a word. -/
def Fits (n : Int) : Prop :=
  Int64.minValue.toInt ≤ n ∧ n ≤ Int64.maxValue.toInt

instance (n : Int) : Decidable (Fits n) :=
  inferInstanceAs (Decidable (_ ∧ _))

end HeaderChain

import HeaderChain.Signed

/-!
# Signed Readings of Low Words

When a signed comparison of two words is the unsigned one.

Nonces are compared by distance, and a distance reads both words as signed.
Half of the words are read as they are, and the other half as negative
numbers, so a positive distance alone does not say which word is the
greater. It does if the word compared with is one of the lower half. That
half is then closed under going up: whatever lies ahead of a low word is low
itself. This is why a chain that starts at zero never leaves it.

## Main definitions

* `Low`: A word of the lower half.

## Theorems

* `Low.of_lt`: What lies below a low word is low.
* `signed_of_low`: A low word is read as it is.
* `signed_of_not_low`: Any other is read as a negative number.
* `distance_of_low`, `fits_distance`: The distance between low words.
* `low_of_le_next`: What is not beyond the next round is low.
* `lt_of_distance_pos`: What lies ahead of a low word is greater than it.
* `low_of_distance_pos`: What lies ahead of a low word is low.
-/

namespace HeaderChain

/-- A word of the lower half, which is read as it is. -/
def Low (n : UInt64) : Prop :=
  n.toNat < Nat.pow 2 63

instance (n : UInt64) : Decidable (Low n) :=
  inferInstanceAs (Decidable (_ < _))

/-- What lies below a low word is low. -/
theorem Low.of_lt {a b : UInt64} (hb : Low b) (h : a < b) : Low a :=
  Nat.lt_trans (UInt64.lt_iff_toNat_lt.mp h) hb

/-- A low word is read as it is. -/
theorem signed_of_low {n : UInt64} (h : Low n) : signed n = n.toNat := by
  unfold signed
  exact if_pos h

/-- A word that is not low is read as a negative number. -/
theorem signed_of_not_low {n : UInt64} (h : ¬ Low n) : signed n < 0 := by
  have hlt : n.toNat < UInt64.size := n.toNat_lt_size
  unfold Low at h
  unfold signed
  rw [if_neg h]
  omega

theorem distance_neg_iff {a b : UInt64} : distance a b < 0 ↔ signed a < signed b := by
  unfold distance
  omega

theorem distance_nonpos_iff {a b : UInt64} : distance a b ≤ 0 ↔ signed a ≤ signed b := by
  unfold distance
  omega

/-- The distance between low words is their difference. -/
theorem distance_of_low {a b : UInt64} (ha : Low a) (hb : Low b) :
    distance a b = a.toNat - b.toNat := by
  rw [distance, signed_of_low ha, signed_of_low hb]

/-- It fits a signed word. -/
theorem fits_distance {a b : UInt64} (ha : Low a) (hb : Low b) : Fits (distance a b) := by
  have hmin : Int64.minValue.toInt = -(Nat.pow 2 63 : Nat) := by decide
  have hmax : Int64.maxValue.toInt = (Nat.pow 2 63 : Nat) - 1 := by decide
  unfold Low at ha hb
  unfold Fits
  rw [distance_of_low ha hb, hmin, hmax]
  omega

/-- What is not beyond the next round is low. -/
theorem low_of_le_next {n : UInt64} {round : Int64} (hnext : Fits (round.toInt + 1))
    (hle : n.toNat ≤ round.toInt + 1) : Low n := by
  have hmax : Int64.maxValue.toInt < Nat.pow 2 63 := by decide
  have hfits := hnext.2
  unfold Low
  omega

/-- What lies ahead of a low word is low. -/
theorem low_of_distance_pos {a b : UInt64} (hb : Low b) (h : 0 < distance a b) : Low a := by
  unfold distance at h
  rw [signed_of_low hb] at h
  by_cases ha : Low a
  · exact ha
  · have hneg := signed_of_not_low ha
    omega

/-- What lies ahead of a low word is greater than it. -/
theorem lt_of_distance_pos {a b : UInt64} (hb : Low b) (h : 0 < distance a b) : b < a := by
  have ha := low_of_distance_pos hb h
  unfold distance at h
  rw [signed_of_low ha, signed_of_low hb] at h
  rw [UInt64.lt_iff_toNat_lt]
  omega

end HeaderChain

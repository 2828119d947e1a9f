import HeaderChain.Settings

/-!
# Check Rounds

When periodic checks may fire.

Whether a round is a multiple of the modulus is asked by a remainder, and there
are two pairs of words for which there is none: any word and zero, and the least
word and minus one. A positive modulus is neither, so the answer is always there
and depends on divisibility alone. The sign of the round does not matter, because
a remainder that is rounded towards zero vanishes exactly where any other does.

## Theorems

* `Settings.isCheckRound_of_pos`: With a positive modulus the check rounds are
  its multiples.
-/

namespace HeaderChain

namespace Settings

/-- There is no telling a check round only where there is no remainder. -/
theorem isCheckRound_eq_error_iff {s : Settings} {round : Int64} {fault : RemainderFault} :
    s.isCheckRound round = .error fault ↔ remainderFault? round s.checkModulus = some fault := by
  unfold isCheckRound
  cases remainderFault? round s.checkModulus with
  | some f => rw [Except.error.injEq, Option.some.injEq]
  | none => exact ⟨nofun, nofun⟩

theorem remainderFault?_of_pos {modulus : Int64} (h : 0 < modulus) (n : Int64) :
    remainderFault? n modulus = none := by
  have hzero : modulus ≠ 0 := by
    rintro rfl
    exact absurd h (by decide)
  have hneg : ¬(n = Int64.minValue ∧ modulus = -1) := by
    rintro ⟨_, rfl⟩
    exact absurd h (by decide)
  rw [remainderFault?, if_neg hzero, if_neg hneg]

/-- With a positive modulus the check rounds are its multiples. -/
theorem isCheckRound_of_pos {s : Settings} (h : 0 < s.checkModulus) (round : Int64) :
    s.isCheckRound round = .ok (decide (s.checkModulus.toInt ∣ round.toInt)) := by
  simp only [isCheckRound, remainderFault?_of_pos h, Int.dvd_iff_tmod_eq_zero]

end Settings

end HeaderChain

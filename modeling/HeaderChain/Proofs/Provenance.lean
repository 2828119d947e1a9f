import HeaderChain.Provenance
import Mathlib.Order.Defs.LinearOrder
import Mathlib.Order.Basic

/-!
# The Order of Provenances

The sources of a header are in a total order, and what supersedes goes up in it.

A known header is superseded by a source of more authority, unless it is
processed. Nothing has more authority than that, so the exception never turns
anything away that the order would let through: a source that does not
supersede has no more authority, and of all the sources of a header the
strongest remains.

## Theorems

* `Provenance.authority_injective`: Sources of the same authority are the same.
* `Provenance.lt_of_supersedes`: What supersedes has more authority.
* `Provenance.eq_processed_of_le`: Nothing has more than what is processed.
* `Provenance.le_of_not_supersedes`: What does not has no more.
-/

namespace HeaderChain

namespace Provenance

variable {a b c : Provenance}

theorem isProcessed_iff : a.isProcessed = true ↔ a = .processed := by
  cases a <;> simp only [isProcessed, reduceCtorEq]

theorem authority_injective : Function.Injective authority := by
  intro a b h
  revert h
  cases a <;> cases b <;> decide

/-- The order of sources is that of their authority, so it is total. -/
instance : LinearOrder Provenance where
  le_refl a := Nat.le_refl a.authority
  le_trans _ _ _ := Nat.le_trans
  lt_iff_le_not_ge _ _ := Nat.lt_iff_le_and_not_ge
  le_antisymm _ _ hab hba := authority_injective (Nat.le_antisymm hab hba)
  le_total a b := Nat.le_total a.authority b.authority
  toDecidableLE := inferInstance
  toDecidableEq := inferInstance
  toDecidableLT := inferInstance

theorem lt_of_supersedes (h : a.supersedes b = true) : b < a :=
  of_decide_eq_true (Bool.and_eq_true_iff.mp h).2

theorem le_of_supersedes (h : a.supersedes b = true) : b ≤ a :=
  (lt_of_supersedes h).le

theorem not_le_of_supersedes (h : a.supersedes b = true) : ¬ a ≤ b :=
  (lt_of_supersedes h).not_ge

/-- Nothing has more authority than what is processed. -/
theorem eq_processed_of_le (h : processed ≤ a) : a = .processed := by
  cases a with
  | processed => rfl
  | _ => exact absurd h (by decide)

/-- What does not supersede has no more authority. -/
theorem le_of_not_supersedes (h : ¬ a.supersedes b = true) : a ≤ b := by
  cases b with
  | processed => cases a <;> decide
  | _ => exact not_lt.mp fun hlt => h (decide_eq_true hlt)

end Provenance

end HeaderChain

import HeaderChain.ForkChoice
import Mathlib.Data.Prod.Lex
import Mathlib.Order.WithBot

/-!
# The Order of Candidates

Candidates form a chain, so the leading one does not depend on who looks
first.

A list of observations is folded from its head, and the candidate so far is
kept unless the next one is strictly better. Read as a fold, the result
depends on the order of the list. But two different candidates are always
ranked one before the other: by rank if the ranks differ, and by hash
otherwise. So what the fold ends with is the one least element, and
`IsLeading` says which that is without speaking of an order of arrival.

The same fact settles the signal. It looks at the leading candidate alone,
and a header that comes before the least of its rivals comes before all of
them.

## Main definitions

* `Rank.place`, `Candidate.place`: What the orders of ranks and of candidates
  are taken from.
* `IsLeading`: A candidate is the least of a list of observations.

## Theorems

* `Rank.lt_iff_place`, `Candidate.lt_iff_place`: A rank or a candidate comes before
  another if its place does.
* `leading?_eq_some_iff`: The fold ends with the least candidate.
* `leading?_eq_none_iff`: It finds none only among no observations.
* `signals_iff`: What a signal means.
-/

namespace HeaderChain

namespace Hash

variable {size : Nat}

theorem bytes_injective : Function.Injective (bytes : Hash size → List UInt8) := by
  rintro ⟨_, _⟩ ⟨_, _⟩ rfl
  rfl

/-- The order of hashes is that of lists of bytes, so it is total. -/
instance : LinearOrder (Hash size) where
  le a b := a.bytes ≤ b.bytes
  le_refl a := List.le_refl a.bytes
  le_trans _ _ _ := List.le_trans
  lt_iff_le_not_ge _ _ :=
    ⟨fun h => ⟨List.le_of_lt h, List.not_le.mpr h⟩, fun h => List.not_le.mp h.2⟩
  le_antisymm _ _ hab hba := bytes_injective (List.le_antisymm hab hba)
  le_total a b := List.le_total a.bytes b.bytes
  toDecidableLE a b := inferInstanceAs (Decidable (a.bytes ≤ b.bytes))
  toDecidableEq := inferInstance
  toDecidableLT := inferInstance

end Hash

namespace Rank

/-- The place of a rank: the bottom for notarized headers, and the round for
    the others. -/
def place : Rank → WithBot Nat
  | .notarized => ⊥
  | .observed round => WithBot.some round.toNat

theorem place_injective : Function.Injective place := by
  intro a b h
  cases a <;> cases b <;> simp_all [place, UInt64.toNat_inj]

theorem lt_iff_place {a b : Rank} : a < b ↔ a.place < b.place := by
  change before a b = true ↔ _
  cases a <;> cases b <;> simp [place, before, UInt64.lt_iff_toNat_lt]

/-- The order of ranks is that of their places, so it is total. -/
instance : LinearOrder Rank where
  le a b := a.place ≤ b.place
  le_refl a := le_refl a.place
  le_trans _ _ _ := le_trans
  lt_iff_le_not_ge _ _ := lt_iff_place.trans lt_iff_le_not_ge
  le_antisymm _ _ hab hba := place_injective (le_antisymm hab hba)
  le_total a b := le_total a.place b.place
  toDecidableLE a b := inferInstanceAs (Decidable (a.place ≤ b.place))
  toDecidableEq := inferInstance
  toDecidableLT := inferInstance

/-- Nothing comes before a notarized header. -/
theorem not_lt_notarized (a : Rank) : ¬ a < notarized := by
  cases a <;> exact Bool.false_ne_true

theorem notarized_lt_observed (round : UInt64) : notarized < observed round :=
  rfl

end Rank

namespace Candidate

/-- A candidate is as good as another if it is the same or better. -/
instance : LE Candidate :=
  ⟨fun a b => a = b ∨ a < b⟩

/-- The place of a candidate: its rank, and within the rank its hash. -/
def place (c : Candidate) : Rank ×ₗ HeaderHash :=
  toLex (c.rank, c.hash)

theorem place_injective : Function.Injective place := by
  rintro ⟨_, _⟩ ⟨_, _⟩ h
  cases toLex.injective h
  rfl

theorem lt_iff_place {a b : Candidate} : a < b ↔ a.place < b.place := by
  rw [Prod.Lex.lt_iff]
  exact Iff.rfl

theorem le_iff_place {a b : Candidate} : a ≤ b ↔ a.place ≤ b.place := by
  rw [le_iff_eq_or_lt, ← lt_iff_place, place_injective.eq_iff]
  exact Iff.rfl

/-- The order of candidates is that of their places, so it is total. -/
instance : LinearOrder Candidate where
  le_refl _ := .inl rfl
  le_trans _ _ _ hab hbc := le_iff_place.mpr (le_trans (le_iff_place.mp hab) (le_iff_place.mp hbc))
  lt_iff_le_not_ge _ _ := by
    simp only [lt_iff_place, le_iff_place]
    exact lt_iff_le_not_ge
  le_antisymm _ _ hab hba :=
    place_injective (le_antisymm (le_iff_place.mp hab) (le_iff_place.mp hba))
  le_total a b := (le_total a.place b.place).imp le_iff_place.mpr le_iff_place.mpr
  toDecidableLE a b := inferInstanceAs (Decidable (a = b ∨ a < b))
  toDecidableEq := inferInstance
  toDecidableLT := inferInstance

/-- No header that is not notarized comes before one that is. -/
theorem notarized_of_lt {o p : Observation} (hlt : of o < of p) (hp : p.provenance = .notarized) :
    o.provenance = .notarized := by
  have hrank : (of p).rank = .notarized := by
    simp only [of, Rank.of, hp]
  rcases hlt with hbefore | ⟨hsame, _⟩
  · rw [hrank] at hbefore
    exact absurd hbefore (Rank.not_lt_notarized _)
  · -- Only a notarized header has the rank of one.
    rw [hrank] at hsame
    cases hprovenance : o.provenance with
    | notarized => rfl
    | _ => simp only [of, Rank.of, hprovenance, reduceCtorEq] at hsame

end Candidate

/-- A candidate is that of one of the observations, and none is better. -/
def IsLeading (os : List Observation) (c : Candidate) : Prop :=
  (∃ o ∈ os, Candidate.of o = c) ∧ ∀ o ∈ os, c ≤ Candidate.of o

/-- There is one leading candidate at most. -/
theorem IsLeading.unique {os : List Observation} {b c : Candidate} (hb : IsLeading os b)
    (hc : IsLeading os c) : b = c := by
  rcases hb.1 with ⟨o, ho, rfl⟩
  rcases hc.1 with ⟨p, hp, rfl⟩
  exact le_antisymm (hb.2 p hp) (hc.2 o ho)

/-- Of a candidate and an observation the better one is kept. -/
theorem better_cases (current : Candidate) (o : Observation) :
    (Candidate.better (some current) o = Candidate.of o ∧ Candidate.of o ≤ current) ∨
      (Candidate.better (some current) o = current ∧ current ≤ Candidate.of o) := by
  by_cases hlt : Candidate.of o < current
  · exact .inl ⟨if_pos hlt, .inr hlt⟩
  · exact .inr ⟨if_neg hlt, not_lt.mp hlt⟩

/-- A fold that starts with a candidate ends with the least of it and those
    of the list. -/
theorem foldl_better (os : List Observation) (current : Candidate) :
    ∃ c, os.foldl (fun current o => some (Candidate.better current o)) (some current) = some c ∧
      (c = current ∨ ∃ o ∈ os, Candidate.of o = c) ∧ c ≤ current ∧
        ∀ o ∈ os, c ≤ Candidate.of o := by
  induction os generalizing current with
  | nil => exact ⟨current, rfl, .inl rfl, .inl rfl, fun o ho => absurd ho List.not_mem_nil⟩
  | cons p rest ih =>
      rcases ih (Candidate.better (some current) p) with ⟨c, hfold, hfrom, hle, hall⟩
      rcases better_cases current p with ⟨heq, hbetter⟩ | ⟨heq, hkept⟩
      · -- From here on the fold goes on with the new candidate.
        rw [heq] at hfrom hle
        refine ⟨c, hfold, .inr ?_, le_trans hle hbetter, fun o ho => ?_⟩
        · rcases hfrom with rfl | ⟨o, ho, hc⟩
          · exact ⟨p, List.mem_cons_self, rfl⟩
          · exact ⟨o, List.mem_cons_of_mem p ho, hc⟩
        · rcases List.mem_cons.mp ho with rfl | ho
          · exact hle
          · exact hall o ho
      · rw [heq] at hfrom hle
        refine ⟨c, hfold, ?_, hle, fun o ho => ?_⟩
        · rcases hfrom with rfl | ⟨o, ho, hc⟩
          · exact .inl rfl
          · exact .inr ⟨o, List.mem_cons_of_mem p ho, hc⟩
        · rcases List.mem_cons.mp ho with rfl | ho
          · exact le_trans hle hkept
          · exact hall o ho

theorem leading?_eq_none_iff {os : List Observation} : leading? os = none ↔ os = [] := by
  cases os with
  | nil => exact ⟨fun _ => rfl, fun _ => rfl⟩
  | cons o rest =>
      rcases foldl_better rest (Candidate.of o) with ⟨c, hfold, _⟩
      have hsome : leading? (o :: rest) = some c := hfold
      simp only [hsome, reduceCtorEq]

/-- The fold ends with the leading candidate. -/
theorem leading?_eq_some_iff {os : List Observation} {c : Candidate} :
    leading? os = some c ↔ IsLeading os c := by
  -- What the fold finds leads, and nothing else does.
  have hfound : ∀ b, leading? os = some b → IsLeading os b := by
    intro b hb
    cases os with
    | nil => exact absurd hb (by simp only [leading?, List.foldl_nil, reduceCtorEq,
        not_false_eq_true])
    | cons o rest =>
        rcases foldl_better rest (Candidate.of o) with ⟨d, hfold, hfrom, hle, hall⟩
        have hbd : b = d := Option.some.inj (hb.symm.trans hfold)
        rw [hbd]
        constructor
        · rcases hfrom with rfl | ⟨p, hp, hd⟩
          · exact ⟨o, List.mem_cons_self, rfl⟩
          · exact ⟨p, List.mem_cons_of_mem o hp, hd⟩
        · intro p hp
          rcases List.mem_cons.mp hp with rfl | hp
          · exact hle
          · exact hall p hp
  refine ⟨hfound c, fun hc => ?_⟩
  cases hlead : leading? os with
  | none =>
      rcases hc.1 with ⟨o, ho, _⟩
      rw [leading?_eq_none_iff.mp hlead] at ho
      exact absurd ho List.not_mem_nil
  | some b => rw [(hfound b hlead).unique hc]

/-- Of observations that there are, some candidate leads. -/
theorem exists_isLeading {os : List Observation} {o : Observation} (ho : o ∈ os) :
    ∃ c, IsLeading os c := by
  cases hlead : leading? os with
  | none =>
      rw [leading?_eq_none_iff.mp hlead] at ho
      exact absurd ho List.not_mem_nil
  | some c => exact ⟨c, leading?_eq_some_iff.mp hlead⟩

/-- A header is signalled as forked if the candidate comes after it. -/
theorem signals_iff {own : Observation} {candidate : Option Candidate} :
    signals own candidate ↔ ∃ c, candidate = some c ∧ Candidate.of own < c := by
  cases candidate with
  | none => simp only [signals, Bool.false_eq_true, reduceCtorEq, false_and, exists_false]
  | some c => simp only [signals, decide_eq_true_eq, Option.some.injEq, exists_eq_left']

end HeaderChain

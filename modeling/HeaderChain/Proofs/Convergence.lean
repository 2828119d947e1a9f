import HeaderChain.Proofs.ForkChoice
import HeaderChain.Sample
import Mathlib.Order.Bounds.Basic

/-!
# Convergence of Fork Choice

Nodes that have seen the same headers agree on one candidate.

A node folds the headers it has seen in the order in which they came, and a header
that comes again is folded again. Each step of the fold keeps the lesser of the
candidate so far and the next one. Candidates are in a total order, so taking the
lesser of two is associative, and the candidate that a fold starts from can be
compared with what the rest of the list yields by itself. This is what lets nodes
that saw different headers compare their candidates: they find what a node with all
the headers would have found.

That the order is total is also why the list leaves no trace. The fold ends with the
least candidate, there is only one, and to be the least does not depend on where in
the list a header stands, nor on how often.

`Precedes` says what the order is without speaking of ranks. A rank is a round or the
lack of one, and the order of candidates is made from that of ranks, so the two agree
once it is known which ranks are equal and which is lower.

## Main definitions

* `Observation.Precedes`: A header comes before another in fork choice.

## Theorems

* `Candidate.of_lt_of_iff`: This is the order of candidates.
* `better_eq_merge`: One step of the fold takes the lesser of two candidates.
* `leading?_append`: Two folds are compared to get the fold over both lists.
* `leading?_congr`: Only which headers there are decides.
* `candidates_converge`: The fold finds the least candidate, whatever the list.
-/

namespace HeaderChain

/-- A header comes before another in fork choice. -/
inductive Observation.Precedes (o p : Observation) : Prop
  /-- It is notarized and the other is not, whatever their rounds are. -/
  | notarized (ho : o.provenance = .notarized) (hp : p.provenance ≠ .notarized)
  /-- Neither is notarized, and it is of a lower round. -/
  | round (ho : o.provenance ≠ .notarized) (hp : p.provenance ≠ .notarized)
      (hlt : o.round < p.round)
  /-- Both are notarized, or neither is and they are of the same round, and it has the
      lower hash. -/
  | hash (hsame : (o.provenance = .notarized ∧ p.provenance = .notarized) ∨
        (o.provenance ≠ .notarized ∧ p.provenance ≠ .notarized ∧ o.round = p.round))
      (hlt : o.hash < p.hash)

variable {o p : Observation}

namespace Rank

theorem of_eq_notarized (h : o.provenance = .notarized) : of o = .notarized := by
  rw [of, h]

theorem of_eq_observed (h : o.provenance ≠ .notarized) : of o = .observed o.round := by
  unfold of
  split
  · next hnotarized => exact absurd hnotarized h
  · rfl

theorem observed_lt_observed {a b : UInt64} : observed a < observed b ↔ a < b :=
  decide_eq_true_iff

theorem of_lt_of_iff :
    of o < of p ↔ (o.provenance = .notarized ∧ p.provenance ≠ .notarized) ∨
      (o.provenance ≠ .notarized ∧ p.provenance ≠ .notarized ∧ o.round < p.round) := by
  by_cases ho : o.provenance = .notarized
  · by_cases hp : p.provenance = .notarized
    · simp only [of_eq_notarized ho, of_eq_notarized hp, lt_irrefl, ho, hp, ne_eq,
        not_true_eq_false, and_false, false_and, or_false]
    · simp only [of_eq_notarized ho, of_eq_observed hp, notarized_lt_observed, ho, hp, ne_eq,
        not_false_eq_true, and_true, true_or]
  · by_cases hp : p.provenance = .notarized
    · simp only [of_eq_notarized hp, not_lt_notarized, ho, hp, ne_eq, not_true_eq_false, and_false,
        false_and, or_false]
    · simp only [of_eq_observed ho, of_eq_observed hp, observed_lt_observed, ho, hp, ne_eq,
        not_false_eq_true, true_and, false_and, false_or]

theorem of_eq_of_iff :
    of o = of p ↔ (o.provenance = .notarized ∧ p.provenance = .notarized) ∨
      (o.provenance ≠ .notarized ∧ p.provenance ≠ .notarized ∧ o.round = p.round) := by
  by_cases ho : o.provenance = .notarized
  · by_cases hp : p.provenance = .notarized
    · simp only [of_eq_notarized ho, of_eq_notarized hp, ho, hp, and_self, true_or]
    · simp only [of_eq_notarized ho, of_eq_observed hp, ho, hp, reduceCtorEq, ne_eq,
        not_true_eq_false, and_false, false_and, or_false]
  · by_cases hp : p.provenance = .notarized
    · simp only [of_eq_observed ho, of_eq_notarized hp, ho, hp, reduceCtorEq, ne_eq,
        not_true_eq_false, and_false, false_and, or_false]
    · simp only [of_eq_observed ho, of_eq_observed hp, observed.injEq, ho, hp, ne_eq,
        not_false_eq_true, true_and, false_and, false_or]

end Rank

namespace Candidate

/-- The order of candidates is that in which headers come in fork choice. -/
theorem of_lt_of_iff : of o < of p ↔ o.Precedes p := by
  have hlex : of o < of p ↔ Rank.of o < Rank.of p ∨ (Rank.of o = Rank.of p ∧ o.hash < p.hash) :=
    Iff.rfl
  rw [hlex, Rank.of_lt_of_iff, Rank.of_eq_of_iff]
  constructor
  · rintro ((⟨ho, hp⟩ | ⟨ho, hp, hlt⟩) | ⟨hsame, hlt⟩)
    · exact .notarized ho hp
    · exact .round ho hp hlt
    · exact .hash hsame hlt
  · rintro (⟨ho, hp⟩ | ⟨ho, hp, hlt⟩ | ⟨hsame, hlt⟩)
    · exact .inl (.inl ⟨ho, hp⟩)
    · exact .inl (.inr ⟨ho, hp, hlt⟩)
    · exact .inr ⟨hsame, hlt⟩

end Candidate

/-- One step of the fold takes the lesser of two candidates, or the only one. -/
theorem better_eq_merge (current : Option Candidate) (o : Observation) :
    some (Candidate.better current o) = current.merge min (some (Candidate.of o)) := by
  cases current with
  | none => rfl
  | some current =>
      rcases better_cases current o with ⟨hbetter, hle⟩ | ⟨hbetter, hle⟩
      · rw [hbetter, Option.merge_some_some, min_eq_right hle]
      · rw [hbetter, Option.merge_some_some, min_eq_left hle]

/-- A fold that starts with a candidate compares it with what the list yields. -/
theorem foldl_better_eq_merge (os : List Observation) (current : Option Candidate) :
    os.foldl (fun current o => some (Candidate.better current o)) current
      = current.merge min (leading? os) := by
  have hstep : (fun current o => some (Candidate.better current o))
      = fun current o => Option.merge min current (some (Candidate.of o)) :=
    funext₂ better_eq_merge
  -- Nothing is the unit of the merge, so a fold from `current` starts with it in front.
  have hassoc : (os.map fun o => some (Candidate.of o)).foldl (Option.merge min)
        (current.merge min none)
      = current.merge min ((os.map fun o => some (Candidate.of o)).foldl (Option.merge min) none) :=
    List.foldl_assoc
  rwa [Option.merge_none_right, List.foldl_map, List.foldl_map, ← hstep] at hassoc

/-- Two folds are compared to get the fold over both lists. -/
theorem leading?_append (os os' : List Observation) :
    leading? (os ++ os') = (leading? os).merge min (leading? os') := by
  rw [leading?, List.foldl_append]
  exact foldl_better_eq_merge os' (leading? os)

/-- Only which headers there are decides, and not where they stand or how often. -/
theorem leading?_congr {os os' : List Observation} (h : ∀ o, o ∈ os ↔ o ∈ os') :
    leading? os = leading? os' := by
  -- To be the least is said with membership alone.
  refine Option.ext fun c => ?_
  rw [leading?_eq_some_iff, leading?_eq_some_iff, IsLeading, IsLeading]
  simp only [h]

/-- All nodes converge on one candidate. From any headers, the fold finds the least of
    their candidates, in the order in which headers come in fork choice. Two lists of
    the same headers have the same candidate, in whatever order the headers stand and
    however often. And the candidate of two lists together is the lesser of theirs. -/
theorem candidates_converge :
    (∀ o p, Candidate.of o < Candidate.of p ↔ o.Precedes p) ∧
      (∀ os : List Observation, os ≠ [] →
        ∃ c, leading? os = some c ∧ IsLeast {c | ∃ o ∈ os, Candidate.of o = c} c) ∧
      (∀ os os' : List Observation, (∀ o, o ∈ os ↔ o ∈ os') → leading? os = leading? os') ∧
      ∀ os os', leading? (os ++ os') = (leading? os).merge min (leading? os') := by
  refine ⟨fun _ _ => Candidate.of_lt_of_iff, fun os hne => ?_, fun _ _ => leading?_congr,
    leading?_append⟩
  rcases Option.ne_none_iff_exists'.mp (mt leading?_eq_none_iff.mp hne) with ⟨c, hc⟩
  rcases leading?_eq_some_iff.mp hc with ⟨hmem, hall⟩
  refine ⟨c, hc, hmem, ?_⟩
  rintro _ ⟨o, ho, rfl⟩
  exact hall o ho

/-- A node sees a header of an early round, another of the same round and a notarized
    header of a late one, and sees the first header again. -/
def firstSeen : List Observation :=
  [⟨7, 3, Sample.hash 4, .received⟩, ⟨7, 3, Sample.hash 2, .received⟩,
    ⟨7, 90, Sample.hash 8, .notarized⟩, ⟨7, 3, Sample.hash 4, .received⟩]

/-- Another node sees the same headers the other way round. -/
def lastSeen : List Observation :=
  [⟨7, 90, Sample.hash 8, .notarized⟩, ⟨7, 3, Sample.hash 2, .received⟩,
    ⟨7, 3, Sample.hash 4, .received⟩]

/-- Both nodes find the notarized header, and so would they if they compared their
    candidates. -/
theorem converge_of_seenTwice :
    firstSeen ≠ [] ∧ (∀ o, o ∈ firstSeen ↔ o ∈ lastSeen) ∧
      leading? firstSeen = leading? lastSeen ∧
      leading? lastSeen = some ⟨.notarized, Sample.hash 8⟩ ∧
      IsLeast {c | ∃ o ∈ firstSeen, Candidate.of o = c} ⟨.notarized, Sample.hash 8⟩ ∧
      leading? (firstSeen ++ lastSeen) = some ⟨.notarized, Sample.hash 8⟩ := by
  have hne : firstSeen ≠ [] := List.cons_ne_nil _ _
  have hsame : ∀ o, o ∈ firstSeen ↔ o ∈ lastSeen := by
    intro o
    simp only [firstSeen, lastSeen, List.mem_cons, List.not_mem_nil, or_false]
    tauto
  rcases candidates_converge with ⟨_, hleast, hcongr, happend⟩
  have hlast : leading? lastSeen = some ⟨.notarized, Sample.hash 8⟩ := by decide +kernel
  have hequal := hcongr firstSeen lastSeen hsame
  rcases hleast firstSeen hne with ⟨c, hc, hc'⟩
  cases (hequal.trans hlast).symm.trans hc
  refine ⟨hne, hsame, hequal, hlast, hc', ?_⟩
  rw [happend, hequal, hlast, Option.merge_some_some, min_self]

end HeaderChain

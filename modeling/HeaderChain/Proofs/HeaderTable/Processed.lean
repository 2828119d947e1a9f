import HeaderChain.Proofs.HeaderTable.Observe
import HeaderChain.Proofs.HeaderTable.Scan

/-!
# Processed Headers Stay

What can take a processed header out of a table, and what cannot.

Nothing that the node hears from others can. An observation of the header
itself does not supersede it, an observation of any other is put behind it,
and a check for forks keeps it whether its nonce is forked or not. It goes
only when another header of its nonce is processed, when it is rolled back or
when finality has passed it, and each of these concerns nothing but the row of
one nonce or the rows below one.

A checkpoint of the chain is backed by a table if its header stands there as
processed. The lemmas are stated for single headers, because a header keeps
backing its checkpoint while others come and go in its row.

## Main definitions

* `HeaderTable.Backs`: The header of a checkpoint stands in a table as
  processed.

## Theorems

* `HeaderTable.exists_processed_observe`: A processed header is in the table
  once it is observed.
* `HeaderTable.Consistent.mem_row_observe_of_processed`: It outlives the
  observation of other headers.
* `HeaderTable.Consistent.mem_row_scan_of_processed`: It outlives a check.
* `HeaderTable.mem_row_retract`, `HeaderTable.row_retract_of_ne`: What rolling back
  leaves of a row, and of the others.
* `HeaderTable.mem_row_tidy_of_processed`: It outlives tidying up, unless
  finality has passed it.
-/

namespace HeaderChain

namespace HeaderTable

variable {t : HeaderTable} {nonce : UInt64} {o p : Observation}

/-- The header of a checkpoint stands in a table as processed. -/
def Backs (t : HeaderTable) (c : Checkpoint) : Prop :=
  ∃ o ∈ t.row c.nonce, o.provenance = .processed ∧ c.hash = some o.hash

theorem exists_processed_observe (t : HeaderTable) (ho : o.provenance = .processed) :
    ∃ p ∈ (t.observe o).row o.nonce, p.provenance = .processed ∧ p.hash = o.hash := by
  rcases t.exists_mem_observe o with ⟨p, hp, hnonce, hhash, hle⟩
  rw [ho] at hle
  exact ⟨p, mem_row.mpr ⟨hp, hnonce⟩, Provenance.eq_processed_of_le hle, hhash⟩

theorem Consistent.mem_row_observe_of_processed (h : t.Consistent) (hp : p ∈ t.row nonce)
    (hprocessed : p.provenance = .processed) (ho : o.provenance = .processed → o.nonce ≠ nonce) :
    p ∈ (t.observe o).row nonce := by
  by_cases hnonce : o.nonce = nonce
  · -- In its own row only a header that is not processed is observed.
    have hunprocessed : o.provenance ≠ .processed := fun hop => ho hop hnonce
    subst hnonce
    rw [row_observe_self]
    rcases noted_cases (t.row o.nonce) o with
      ⟨_, hnew⟩ | ⟨known, hknown, hhash, ⟨hsup, hraised⟩ | ⟨_, hsame⟩⟩
    · rw [hnew, roomIn_of_unprocessed _ hunprocessed]
      exact List.mem_append_left _ hp
    · have hne : p.hash ≠ o.hash := by
        intro hpo
        rw [← h.eq_of_hash_eq hp hknown (hpo.trans hhash.symm), hprocessed] at hsup
        exact absurd hsup Bool.false_ne_true
      rw [hraised, roomIn_of_unprocessed _ hunprocessed]
      exact List.mem_map.mpr ⟨p, hp, if_neg hne⟩
    · rw [hsame]
      exact hp
  · rw [row_observe_of_ne hnonce]
    exact hp

theorem Consistent.mem_row_observeAll_of_processed {os : List Observation} (h : t.Consistent)
    (hp : p ∈ t.row nonce) (hprocessed : p.provenance = .processed)
    (hos : ∀ o ∈ os, o.provenance ≠ .processed) : p ∈ (t.observeAll os).row nonce := by
  induction os generalizing t with
  | nil => exact hp
  | cons o rest ih =>
      have ho := hos o List.mem_cons_self
      refine ih (h.observe o) ?_ fun q hq => hos q (List.mem_cons_of_mem o hq)
      exact h.mem_row_observe_of_processed hp hprocessed fun hop => absurd hop ho

theorem Consistent.mem_row_scan_of_processed (h : t.Consistent) (hp : p ∈ t.row nonce)
    (hprocessed : p.provenance = .processed) : p ∈ t.scan.2.row nonce := by
  rcases h.row_scan_cases nonce with hsame | ⟨own, hown, hownprocessed, _, hleft⟩
  · rw [hsame]
    exact hp
  · -- What is left is the processed header of the row, which is this one.
    rw [hleft, h.eq_of_processed hp hown hprocessed hownprocessed]
    exact List.mem_cons_self

theorem mem_row_tidy_of_processed {final : Checkpoint} (hp : p ∈ t.row nonce)
    (hprocessed : p.provenance = .processed) (hfinal : final.nonce ≤ nonce) :
    p ∈ ((t.dropBelow final.nonce).dropPremature final).row nonce := by
  rcases mem_row.mp hp with ⟨hseen, hnonce⟩
  refine mem_row.mpr ⟨mem_tidy.mpr ⟨hseen, ?_, fun hpremature => ?_⟩, hnonce⟩
  · rw [hnonce]
    exact hfinal
  · rw [hprocessed] at hpremature
    exact absurd hpremature.1 (by decide)

/-- Rolling back a header drops it and all that was received of its nonce. -/
theorem mem_row_retract {hash : HeaderHash} :
    p ∈ (t.retract nonce hash).row nonce ↔
      p ∈ t.row nonce ∧ p.hash ≠ hash ∧ p.provenance ≠ .received := by
  unfold retract
  rw [row_keep, List.mem_filter]
  refine and_congr_right fun hp => ?_
  rw [(mem_row.mp hp).2, bne_self_eq_false, Bool.false_or, Bool.and_eq_true, bne_iff_ne, bne_iff_ne]

theorem row_retract_of_ne {other : UInt64} {hash : HeaderHash} (hne : nonce ≠ other) :
    (t.retract other hash).row nonce = t.row nonce := by
  unfold retract
  rw [row_keep, List.filter_eq_self]
  intro q hq
  rw [(mem_row.mp hq).2, bne_iff_ne.mpr hne, Bool.true_or]

end HeaderTable

end HeaderChain

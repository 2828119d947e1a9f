import HeaderChain.Proofs.HeaderTable.Observe
import HeaderChain.Proofs.HeaderTable.Scan
import HeaderChain.Sample

/-!
# Checking More Often

Whether a check for forks in between changes what a later one finds.

A check drops the rivals that have lost, and a rival lost if some header of
its row is ranked before the node's own. Such a row is `Outranked`. Left
alone it stays so, as long as no other header of the nonce is processed: the
better rival stays in the row, and a new provenance can only improve its rank.
So without the check the nonce is never forked again. With it, the better
rival is gone, and a later header that comes after the node's own one forks
the nonce.

Checking is therefore not free of consequences, and `poll_changes_verdicts`
shows it both ways. A check in between can raise a fork that would not have
been found, and if the better rival itself is processed afterwards, it can
hide one, because the rivals that this one would have been compared with are
gone too. What it cannot do is anything at a nonce where it dropped nothing.
`poll_verdict_iff` draws the line.

## Main definitions

* `HeaderTable.Arises`: A table comes from observations and checks.
* `HeaderTable.Drops`: A check drops something at a nonce.
* `HeaderTable.Outranked`: A rival is ranked before the own header of a row.

## Theorems

* `HeaderTable.Consistent.outranked_of_drops`: What a check drops was
  outranked.
* `HeaderTable.Outranked.observeAll`: An outranked row stays outranked.
* `HeaderTable.Outranked.not_forked`: It is not forked.
* `HeaderTable.Consistent.verdict_eq_iff`: When tables that differ at some
  nonces have the same verdict.
* `HeaderTable.poll_verdict_iff`: When a check in between changes the verdict.
* `HeaderTable.poll_changes_verdicts`: Cases in which it does.
-/

namespace HeaderChain

namespace HeaderTable

variable {t u : HeaderTable} {nonce : UInt64} {own o : Observation} {os : List Observation}

/-- A table that comes from observations and checks for forks. -/
inductive Arises : HeaderTable → Prop
  /-- Nothing has been seen. -/
  | empty : Arises empty
  /-- A header is observed. -/
  | observe (t : HeaderTable) (o : Observation) : Arises t → Arises (t.observe o)
  /-- Forks are checked for. -/
  | scan (t : HeaderTable) : Arises t → Arises t.scan.2

theorem Arises.consistent (h : Arises t) : t.Consistent := by
  induction h with
  | empty => exact consistent_empty
  | observe t o _ ih => exact ih.observe o
  | scan t _ ih => exact ih.scan

theorem Arises.observeAll (h : Arises t) (os : List Observation) : Arises (t.observeAll os) := by
  induction os generalizing t with
  | nil => exact h
  | cons o rest ih => exact ih (.observe t o h)

/-- A check drops something at a nonce. -/
def Drops (t : HeaderTable) (nonce : UInt64) : Prop :=
  ∃ o ∈ t.row nonce, o ∉ t.scan.2.row nonce

instance (t : HeaderTable) (nonce : UInt64) : Decidable (t.Drops nonce) :=
  inferInstanceAs (Decidable (∃ o ∈ t.row nonce, _))

/-- A rival is ranked before the own header of a row. -/
structure Outranked (row : List Observation) (own : Observation) : Prop where
  /-- The own header is in the row. -/
  own_mem : own ∈ row
  /-- It is processed. -/
  processed : own.provenance = .processed
  /-- A rival is ranked before it. -/
  outranked : ∃ o ∈ row, o.provenance ≠ .processed ∧ Candidate.of o < Candidate.of own

/-- Where a check drops nothing, it leaves the row as it is. -/
theorem row_scan_of_not_drops (h : ¬ t.Drops nonce) : t.scan.2.row nonce = t.row nonce := by
  rw [row_scan, List.filter_eq_self]
  intro o ho
  by_contra hsurvives
  refine h ⟨o, ho, fun hmem => ?_⟩
  rw [row_scan] at hmem
  exact hsurvives (List.mem_filter.mp hmem).2

/-- And the row stays the same with and without it. -/
theorem row_observeAll_scan (h : ¬ t.Drops nonce) :
    (t.scan.2.observeAll os).row nonce = (t.observeAll os).row nonce :=
  row_observeAll_congr os (row_scan_of_not_drops h)

/-- A check drops something only where a rival is ranked before the own
    header. -/
theorem Consistent.outranked_of_drops (h : t.Consistent) (hdrops : t.Drops nonce) :
    ∃ own, Outranked (t.row nonce) own := by
  rcases hdrops with ⟨o, ho, hdropped⟩
  rcases h.row_scan_cases nonce with hkept | ⟨own, hown, hprocessed, hfork, hleft⟩
  · rw [hkept] at hdropped
    exact absurd ho hdropped
  · -- What was dropped is a rival, so one of them leads.
    have hne : o ≠ own := fun heq => hdropped (hleft ▸ List.mem_singleton.mpr heq)
    rcases exists_isLeading (h.mem_rivals_of_ne hown hprocessed ho hne) with ⟨c, hleading⟩
    rcases hleading.1 with ⟨m, hm, rfl⟩
    rcases mem_rivals.mp hm with ⟨hmrow, hunprocessed⟩
    refine ⟨own, hown, hprocessed, m, hmrow, hunprocessed, ?_⟩
    -- It does not come after the own header, and it is another header.
    have hother : Candidate.of m ≠ Candidate.of own := fun heq =>
      h.hash_ne_own hleading hown hprocessed (heq ▸ rfl)
    rcases lt_or_gt_of_ne hother with hlt | hgt
    · exact hlt
    · have hsome := h.fork?_eq_some_iff.mpr ⟨own, hown, hprocessed, hleading, hgt⟩
      rw [hfork] at hsome
      exact absurd hsome (by simp only [reduceCtorEq, not_false_eq_true])

/-- An outranked nonce is not forked. -/
theorem Outranked.not_forked (h : Outranked (t.row nonce) own) (ht : t.Consistent) :
    ¬ t.Forked nonce := by
  rintro ⟨other, hother, hprocessed, _, hall⟩
  rcases h.outranked with ⟨m, hm, hunprocessed, hlt⟩
  rw [ht.eq_of_processed hother h.own_mem hprocessed h.processed] at hall
  have hne : m ≠ own := ne_of_mem_rivals (mem_rivals.mpr ⟨hm, hunprocessed⟩) h.processed
  exact lt_irrefl _ (lt_trans (hall m hm hne) hlt)

/-- A new provenance, short of being processed, does not worsen a rank. -/
theorem of_raised_le {m : Observation} {provenance : Provenance} (hp : provenance ≠ .processed)
    (hle : m.provenance ≤ provenance) :
    Candidate.of { m with provenance } ≤ Candidate.of m := by
  rcases m with ⟨nonce, round, hash, old⟩
  have hle : old ≤ provenance := hle
  cases provenance with
  | processed => exact absurd rfl hp
  | notarized =>
      cases old with
      | notarized => exact .inl rfl
      | _ => exact .inr (.inl (Rank.notarized_lt_observed round))
  | _ =>
      cases old with
      | notarized => exact absurd hle (by decide)
      | _ => exact .inl rfl

/-- An outranked row stays outranked by an observation, unless that is of
    another processed header. -/
theorem Outranked.observe (h : Outranked (t.row nonce) own) (ht : t.Consistent)
    (ho : o.provenance = .processed → o.nonce = nonce → o.hash = own.hash) :
    Outranked ((t.observe o).row nonce) own := by
  by_cases hnonce : o.nonce = nonce
  · subst hnonce
    rcases h.outranked with ⟨m, hm, hunprocessed, hlt⟩
    rw [row_observe_self]
    rcases noted_cases (t.row o.nonce) o with
      ⟨hnew, hnoted⟩ | ⟨known, hknown, hhash, ⟨hsup, hnoted⟩ | ⟨_, hnoted⟩⟩
    · -- A header that is new to the row is not its own one.
      have hop : o.provenance ≠ .processed := fun hop => hnew own h.own_mem (ho hop rfl).symm
      rw [hnoted, roomIn_of_unprocessed _ hop]
      exact ⟨List.mem_append_left _ h.own_mem, h.processed,
        m, List.mem_append_left _ hm, hunprocessed, hlt⟩
    · -- Nor is one that is superseded, so the own header stays as it is.
      have hother : own.hash ≠ o.hash := by
        intro hown
        rw [ht.eq_of_hash_eq hknown h.own_mem (hhash.trans hown.symm), h.processed] at hsup
        exact Bool.false_ne_true hsup
      have hop : o.provenance ≠ .processed := fun hop => hother (ho hop rfl).symm
      have hown : raised o own = own := if_neg hother
      rw [hnoted, roomIn_of_unprocessed _ hop]
      refine ⟨List.mem_map.mpr ⟨own, h.own_mem, hown⟩, h.processed,
        raised o m, List.mem_map_of_mem hm, ?_⟩
      by_cases hmo : m.hash = o.hash
      · have hmknown : m = known := ht.eq_of_hash_eq hm hknown (hmo.trans hhash.symm)
        have hle : m.provenance ≤ o.provenance := hmknown ▸ Provenance.le_of_supersedes hsup
        rw [show raised o m = { m with provenance := o.provenance } from if_pos hmo]
        exact ⟨hop, lt_of_le_of_lt (of_raised_le hop hle) hlt⟩
      · rw [show raised o m = m from if_neg hmo]
        exact ⟨hunprocessed, hlt⟩
    · rw [hnoted]
      exact h
  · rw [row_observe_of_ne hnonce]
    exact h

/-- An outranked row stays outranked, as long as no other header of its nonce
    is processed. -/
theorem Outranked.observeAll (h : Outranked (t.row nonce) own) (ht : t.Consistent)
    (hos : ∀ o ∈ os, o.provenance = .processed → o.nonce = nonce → o.hash = own.hash) :
    Outranked ((t.observeAll os).row nonce) own := by
  induction os generalizing t with
  | nil => exact h
  | cons o rest ih =>
      exact ih (h.observe ht (hos o List.mem_cons_self)) (ht.observe o)
        fun p hp => hos p (List.mem_cons_of_mem o hp)

/-- Where a check dropped something, no fork is found without it, as long as no
    other header of the nonce is processed. -/
theorem Consistent.not_forked_of_drops (ht : t.Consistent) (hdrops : t.Drops nonce)
    (hos : ∀ o ∈ os, o.provenance = .processed → o.nonce = nonce →
      ∀ own ∈ t.row nonce, own.provenance = .processed → own.hash = o.hash) :
    ¬ (t.observeAll os).Forked nonce := by
  rcases ht.outranked_of_drops hdrops with ⟨own, houtranked⟩
  refine (houtranked.observeAll ht fun o ho hop hnonce => ?_).not_forked (ht.observeAll os)
  exact (hos o ho hop hnonce own houtranked.own_mem houtranked.processed).symm

theorem forked_congr (h : t.row nonce = u.row nonce) :
    t.Forked nonce ↔ u.Forked nonce := by
  simp only [Forked, h]

/-- The nonces that are forked without a check in between are those that are
    forked with it and at which it dropped nothing. -/
theorem Consistent.forked_iff_polled (ht : t.Consistent)
    (hos : ∀ o ∈ os, o.provenance = .processed → t.Drops o.nonce →
      ∀ own ∈ t.row o.nonce, own.provenance = .processed → own.hash = o.hash)
    (nonce : UInt64) :
    (t.observeAll os).Forked nonce ↔
      (t.scan.2.observeAll os).Forked nonce ∧ ¬ t.Drops nonce := by
  constructor
  · intro hforked
    have hkept : ¬ t.Drops nonce := fun hdrops => ht.not_forked_of_drops hdrops
      (fun o ho hop hnonce => hnonce ▸ hos o ho hop (hnonce ▸ hdrops)) hforked
    exact ⟨(forked_congr (row_observeAll_scan hkept)).mpr hforked, hkept⟩
  · rintro ⟨hforked, hkept⟩
    exact (forked_congr (row_observeAll_scan hkept)).mp hforked

/-- Let one table be forked at some of the nonces at which another is, and let
    the two agree there. Then their verdicts are the same if the other does not
    report any of the rest. -/
theorem Consistent.verdict_eq_iff (ht : t.Consistent) (hu : u.Consistent) {kept : UInt64 → Prop}
    (hforked : ∀ nonce, u.Forked nonce ↔ t.Forked nonce ∧ kept nonce)
    (hrow : ∀ nonce, kept nonce → t.row nonce = u.row nonce) :
    t.scan.1 = u.scan.1 ↔ ∀ nonce, t.scan.1.nonce? = some nonce → kept nonce := by
  constructor
  · -- A nonce that both report is forked in both.
    intro hsame nonce hnonce
    rcases u.verdict_cases with hclear | ⟨n, c, hc⟩
    · rw [hsame, hclear] at hnonce
      exact absurd hnonce (by simp only [Verdict.nonce?, reduceCtorEq, not_false_eq_true])
    · rw [hsame, hc, Verdict.nonce?, Option.some.injEq] at hnonce
      rw [← hnonce]
      exact ((hforked n).mp (hu.reports_iff.mp hc).1.1).2
  · intro hreported
    rcases t.verdict_cases with hclear | ⟨nonce, c, hc⟩
    · rcases u.verdict_cases with hclear' | ⟨n, b, hb⟩
      · rw [hclear, hclear']
      · have hdetected := ht.isFork_scan_iff.mpr ⟨n, ((hforked n).mp (hu.reports_iff.mp hb).1.1).1⟩
        rw [hclear] at hdetected
        exact absurd hdetected Bool.false_ne_true
    · -- What is least among more nonces is least among those of them that are
      -- left.
      have hkept : kept nonce := hreported nonce (by rw [hc]; rfl)
      rcases ht.reports_iff.mp hc with ⟨⟨hfork, hleast⟩, hleading⟩
      rw [hc, eq_comm, hu.reports_iff]
      refine ⟨⟨(hforked nonce).mpr ⟨hfork, hkept⟩, fun other hother => ?_⟩, ?_⟩
      · exact hleast other ((hforked other).mp hother).1
      · rw [rivals, ← hrow nonce hkept]
        exact hleading

/-- What a check in between changes. Let a table be checked and go on with some
    observations, and let the same observations be made without the check.
    Where the check dropped nothing, the rows agree in the end. Suppose that at
    the other nonces no other header than the own one is processed. Then those
    nonces are never forked without the check, and the nonces that are forked
    without it are the others that are forked with it. So the two verdicts are
    the same exactly if the checked one does not report a nonce at which
    something was dropped. -/
theorem poll_verdict_iff (ht : Arises t) (os : List Observation) :
    (∀ nonce, ¬ t.Drops nonce →
        (t.scan.2.observeAll os).row nonce = (t.observeAll os).row nonce) ∧
      ((∀ o ∈ os, o.provenance = .processed → t.Drops o.nonce →
          ∀ own ∈ t.row o.nonce, own.provenance = .processed → own.hash = o.hash) →
        (∀ nonce, (t.observeAll os).Forked nonce ↔
            (t.scan.2.observeAll os).Forked nonce ∧ ¬ t.Drops nonce) ∧
          ((t.scan.2.observeAll os).scan.1 = (t.observeAll os).scan.1 ↔
            ∀ nonce, (t.scan.2.observeAll os).scan.1.nonce? = some nonce →
              ¬ t.Drops nonce)) := by
  have hpolled := ht.consistent.scan.observeAll os
  have hunpolled := ht.consistent.observeAll os
  refine ⟨fun nonce => row_observeAll_scan, fun hos => ?_⟩
  have hforked := ht.consistent.forked_iff_polled hos
  exact ⟨hforked, hpolled.verdict_eq_iff hunpolled hforked fun nonce => row_observeAll_scan⟩

/-- A nonce whose own header has lost to another, and one that is forked. -/
def lostAndForked : List Observation :=
  [⟨3, 5, Sample.hash 5, .processed⟩, ⟨3, 4, Sample.hash 1, .received⟩,
    ⟨4, 6, Sample.hash 6, .processed⟩, ⟨4, 7, Sample.hash 7, .received⟩]

/-- The one that won is certified, and a third header is seen in the round of
    the own one. -/
def laterSightings : List Observation :=
  [⟨3, 4, Sample.hash 1, .notarized⟩, ⟨3, 5, Sample.hash 2, .received⟩,
    ⟨3, 5, Sample.hash 5, .processed⟩]

/-- A check in between drops it but changes nothing, because nothing comes
    after the own header. -/
theorem poll_of_lostAndForked :
    Arises (empty.observeAll lostAndForked) ∧ (empty.observeAll lostAndForked).Drops 3 ∧
      ¬ (empty.observeAll lostAndForked).Drops 4 ∧
      ((empty.observeAll lostAndForked).observeAll laterSightings).scan.1
        = .forked 4 ⟨.observed 7, Sample.hash 7⟩ ∧
      ((empty.observeAll lostAndForked).scan.2.observeAll laterSightings).scan.1
        = .forked 4 ⟨.observed 7, Sample.hash 7⟩ := by
  have ht : Arises (empty.observeAll lostAndForked) := Arises.empty.observeAll _
  have h := (poll_verdict_iff ht laterSightings).2 (by decide)
  have hkept : ¬ (empty.observeAll lostAndForked).Drops 4 := by decide
  have hverdict : ((empty.observeAll lostAndForked).scan.2.observeAll laterSightings).scan.1
      = .forked 4 ⟨.observed 7, Sample.hash 7⟩ := by decide
  have hsame := h.2.mpr fun nonce hnonce => by
    rw [hverdict, Verdict.nonce?, Option.some.injEq] at hnonce
    exact hnonce ▸ hkept
  exact ⟨ht, by decide, hkept, hsame.symm.trans hverdict, hverdict⟩

/-- A header that has lost to another and comes before a third. -/
def lostToOne : List Observation :=
  [⟨3, 5, Sample.hash 5, .processed⟩, ⟨3, 4, Sample.hash 1, .received⟩,
    ⟨3, 9, Sample.hash 9, .received⟩]

/-- A check in between can change what a later one finds. With it, a header
    that comes after the own one forks the nonce, because the better rival is
    gone. And if the better rival is processed itself, the fork that is found
    without the check is not found with it. -/
theorem poll_changes_verdicts :
    Arises (empty.observeAll lostToOne) ∧
      ((empty.observeAll lostToOne).observeAll [⟨3, 6, Sample.hash 2, .received⟩]).scan.1 = .clear ∧
      ((empty.observeAll lostToOne).scan.2.observeAll [⟨3, 6, Sample.hash 2, .received⟩]).scan.1
        = .forked 3 ⟨.observed 6, Sample.hash 2⟩ ∧
      ((empty.observeAll lostToOne).observeAll [⟨3, 4, Sample.hash 1, .processed⟩]).scan.1
        = .forked 3 ⟨.observed 9, Sample.hash 9⟩ ∧
      ((empty.observeAll lostToOne).scan.2.observeAll [⟨3, 4, Sample.hash 1, .processed⟩]).scan.1
        = .clear :=
  ⟨Arises.empty.observeAll _, by decide, by decide, by decide, by decide⟩

end HeaderTable

end HeaderChain

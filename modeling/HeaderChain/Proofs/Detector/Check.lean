import HeaderChain.Proofs.HeaderTable.Observe
import HeaderChain.Proofs.HeaderTable.Scan
import HeaderChain.Sample

/-!
# Checking for Forks

What a detector answers when it is asked for forks, and what it keeps.

The answer is about the lowest nonce at which the node's own header comes
before every other header of that nonce, and names the least of those. What
is kept is the row of every forked nonce and of every nonce at which the node
has processed nothing, and of the others its own header. Neither mentions how
the table is gone through, and both are exact, so nothing else can be
reported and nothing else can be lost.

A declared fork comes before all of this: as long as it stands, the table is
neither read nor changed.

## Theorems

* `Detector.check_spec`: What a check finds and leaves.
-/

namespace HeaderChain

namespace Detector

/-- What a check for forks finds and leaves. In a consistent table a fork is
    detected exactly if some nonce is forked, and reported is the least such
    nonce with the leading of its rivals, which is not the node's own header.
    No nonce is lost. A nonce that is not forked keeps its own header alone,
    and any other row, forked or without an own header, stays as it is, so a
    second check finds and leaves the same. A detector checks its table unless
    a fork is declared, and changes nothing else. -/
theorem check_spec (t : HeaderTable) :
    (t.Consistent →
      (t.scan.1.isFork = true ↔ ∃ nonce, t.Forked nonce) ∧
      (∀ nonce c, t.scan.1 = .forked nonce c ↔
        (t.Forked nonce ∧ ∀ other, t.Forked other → nonce ≤ other) ∧
          IsLeading (t.rivals nonce) c) ∧
      (∀ nonce c, t.scan.1 = .forked nonce c → ∀ own ∈ t.row nonce,
        own.provenance = .processed → c.hash ≠ own.hash) ∧
      (∀ nonce, nonce ∈ t.scan.2.nonces ↔ nonce ∈ t.nonces) ∧
      (∀ nonce, ¬ t.Forked nonce → ∀ own ∈ t.row nonce,
        own.provenance = .processed → t.scan.2.row nonce = [own]) ∧
      (∀ nonce, (t.Forked nonce ∨ ∀ o ∈ t.row nonce, o.provenance ≠ .processed) →
        t.scan.2.row nonce = t.row nonce) ∧
      t.scan.2.scan = t.scan) ∧
    ∀ d : Detector, d.table = t →
      d.check = if d.forced then (.forced, d) else (t.scan.1, { d with table := t.scan.2 }) := by
  refine ⟨fun ht => ⟨ht.isFork_scan_iff, fun nonce c => ht.reports_iff, ?_,
    fun nonce => ht.mem_nonces_scan, ?_, ?_, ht.scan_scan⟩, ?_⟩
  · intro nonce c hc own hown hprocessed
    exact ht.hash_ne_own (ht.reports_iff.mp hc).2 hown hprocessed
  · intro nonce hunforked own hown hprocessed
    refine ht.row_scan_of_own hown hprocessed ?_
    cases hfork : HeaderTable.fork? (t.row nonce) with
    | none => rfl
    | some c => exact absurd (ht.forked_iff.mpr ⟨c, hfork⟩) hunforked
  · rintro nonce (hforked | hunprocessed)
    · rcases ht.forked_iff.mp hforked with ⟨c, hc⟩
      exact HeaderTable.row_scan_of_fork? hc
    · exact HeaderTable.row_scan_of_unprocessed (HeaderTable.own?_eq_none_iff.mpr hunprocessed)
  · rintro d rfl
    rfl

/-- Two forked nonces, one whose own header has lost and one at which nothing is
    processed. -/
def fourNonces : HeaderTable :=
  HeaderTable.empty.observeAll
    [⟨7, 5, Sample.hash 5, .processed⟩, ⟨7, 9, Sample.hash 1, .received⟩,
      ⟨7, 5, Sample.hash 8, .received⟩, ⟨8, 6, Sample.hash 6, .processed⟩,
      ⟨8, 9, Sample.hash 9, .notarized⟩, ⟨9, 8, Sample.hash 3, .processed⟩,
      ⟨9, 8, Sample.hash 4, .received⟩, ⟨5, 3, Sample.hash 2, .received⟩,
      ⟨5, 4, Sample.hash 1, .notarized⟩]

/-- The lower of the forked nonces is reported, and one row alone is cut
    down. -/
theorem check_of_fourNonces :
    fourNonces.Consistent ∧ fourNonces.scan.1 = .forked 7 ⟨.observed 5, Sample.hash 8⟩ ∧
      fourNonces.scan.2.row 8 = [⟨8, 6, Sample.hash 6, .processed⟩] ∧
      fourNonces.scan.2.row 5 = fourNonces.row 5 ∧ fourNonces.scan.2.row 9 = fourNonces.row 9 ∧
      fourNonces.scan.2.scan = fourNonces.scan := by
  have ht : fourNonces.Consistent := HeaderTable.consistent_empty.observeAll _
  rcases (check_spec fourNonces).1 ht with ⟨_, hreport, _, _, hcut, hkept, hagain⟩
  have hforked : fourNonces.Forked 7 ∧ fourNonces.Forked 9 ∧ ¬ fourNonces.Forked 8 := by decide
  have hverdict : fourNonces.scan.1 = .forked 7 ⟨.observed 5, Sample.hash 8⟩ := by decide
  exact ⟨ht, hverdict, hcut 8 hforked.2.2 _ (by decide) rfl, hkept 5 (.inr (by decide)),
    hkept 9 (.inl hforked.2.1), hagain⟩

end Detector

end HeaderChain

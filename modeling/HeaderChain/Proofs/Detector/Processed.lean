import HeaderChain.Proofs.Detector.Sound
import HeaderChain.Proofs.HeaderTable.Processed
import HeaderChain.Proofs.History.Rounds

/-!
# Processing a Header

What a processed header leaves behind if it brings no ancestors.

A header that has passed the gates lies above the final checkpoint, and it is pushed
on top of whatever lies below it. So it ends up last, whatever was last before, and
finality moves up to it at most. That is all that can be said of the checkpoints
without a look at them.

In the table it can meet others of its nonce, and then it depends on them what becomes
of the row. The first of its nonce meets none. It is alone in its row afterwards, and
nothing is added to any other.

## Theorems

* `Detector.Sound.last_accept_processed`: A processed header ends up last.
* `Detector.mem_accept_fresh`: What the table holds after the first of its nonce.
* `Detector.Sound.row_accept_fresh`, `Detector.row_accept_subset`: What becomes of its
  row and of the others.
-/

namespace HeaderChain

namespace Detector

variable {settings : Settings} {d : Detector} {env : Surroundings} {header : Header}

section Last

variable (hs : d.Sound) (hgate : d.gateFault? settings env header .processed = none)

include hs hgate

theorem Sound.last_accept_processed (force : Bool) (hash : HeaderHash) :
    (d.accept settings force header hash .processed []).last = header.checkpoint hash := by
  rcases hs.checkpoint_above hgate hash with ⟨hown, hlow⟩
  unfold last
  rw [history_accept_processed]
  exact hs.history.last_prune_settle_push hown hlow settings.finalDepth

/-- Finality moves up to it at most. -/
theorem Sound.final_le_accept_processed (force : Bool) (hash : HeaderHash) :
    (d.accept settings force header hash .processed []).final.nonce ≤ header.nonce := by
  have hle := (hs.accept hgate force hash []).history.final_le_last
  change _ ≤ (d.accept settings force header hash .processed []).last.nonce at hle
  rw [hs.last_accept_processed hgate force hash] at hle
  exact hle

end Last

variable (hfresh : d.table.row header.nonce = []) (force : Bool) (hash : HeaderHash)

include hfresh

/-- The first header of its nonce is added to what is held, and what finality has made
    pointless is dropped. -/
theorem mem_accept_fresh (o : Observation) :
    o ∈ (d.accept settings force header hash .processed []).table.observations ↔
      (o ∈ d.table.observations ∨ o = ⟨header.nonce, header.round, hash, .processed⟩) ∧
        (d.accept settings force header hash .processed []).final.nonce ≤ o.nonce ∧
        ¬(o.provenance = .received ∧ HeaderTable.isPremature
          (d.accept settings force header hash .processed []).final o = true) := by
  rw [table_accept_processed, HeaderTable.mem_tidy, HeaderTable.mem_observe_of_fresh hfresh]

theorem row_accept_subset {other : UInt64} (hother : other ≠ header.nonce) :
    (d.accept settings force header hash .processed []).table.row other ⊆ d.table.row other := by
  intro o ho
  rcases HeaderTable.mem_row.mp ho with ⟨hseen, hnonce⟩
  rcases ((mem_accept_fresh hfresh force hash o).mp hseen).1 with hold | rfl
  · exact HeaderTable.mem_row.mpr ⟨hold, hnonce⟩
  · exact absurd hnonce.symm hother

theorem Sound.row_accept_fresh (hs : d.Sound)
    (hgate : d.gateFault? settings env header .processed = none) :
    (d.accept settings force header hash .processed []).table.row header.nonce
      = [⟨header.nonce, header.round, hash, .processed⟩] := by
  have htable := (hs.accept hgate force hash []).table.toConsistent
  refine htable.row_eq_singleton ?_ fun o ho => ?_
  · -- It is neither too low to stay nor premature.
    have hfinal := hs.final_le_accept_processed hgate force hash
    refine HeaderTable.mem_row.mpr ⟨(mem_accept_fresh hfresh force hash _).mpr ?_, rfl⟩
    exact ⟨.inr rfl, hfinal, fun hpremature => Provenance.noConfusion hpremature.1⟩
  · rcases HeaderTable.mem_row.mp ho with ⟨hseen, hnonce⟩
    refine ((mem_accept_fresh hfresh force hash o).mp hseen).1.resolve_left fun hold => ?_
    -- Nothing of its nonce was held before.
    have hrow := HeaderTable.mem_row.mpr ⟨hold, hnonce⟩
    rw [hfresh] at hrow
    exact absurd hrow List.not_mem_nil

end Detector

end HeaderChain

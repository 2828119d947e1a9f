import HeaderChain.Proofs.Detector.Redelivery
import HeaderChain.Proofs.History.Permuted

/-!
# Ancestor Lists as Sets

Why a header may list its ancestors in any order.

What lies outside the window of a header is not looked at. Within it, if no two ancestors
are of one nonce, the order makes no difference either. In the table each ancestor touches
the row of its own nonce. The history may differ until it is pruned, but what is final does
not, and that is all that tidying up goes by.

The same numbers are computed on the way, so one call is in range if the other is.

## Theorems

* `Detector.supplied_perm`: What two such lists bring differs in order only.
* `Detector.Sound.tidy_takeIn_perm`: Once tidied up, what they lead to is the same.
* `Detector.ancestors_unordered`: An offer does the same with either list.
-/

namespace HeaderChain

namespace Detector

variable {settings : Settings} {env : Surroundings} {d : Detector} {events : List Event}
  {o : Offer} {header : Header} {provenance : Provenance} {as bs : List Ancestor}

section Lists

variable (hperm : (d.window header as).Perm (d.window header bs))

include hperm

theorem supplied_perm (hash : HeaderHash) (provenance : Provenance) :
    (d.supplied header hash provenance as).Perm (d.supplied header hash provenance bs) := by
  unfold supplied
  split
  · exact .refl _
  · refine .cons _ ?_
    split
    · exact hperm.map _
    · exact .refl _

variable (hdistinct : ((d.window header as).map Ancestor.nonce).Nodup)

omit hperm in
include hdistinct in
/-- If the ancestors in the window are of distinct nonces, then so is all that they come
    with, because the header lies above them. -/
theorem nodup_supplied (hash : HeaderHash) (provenance : Provenance) :
    ((d.supplied header hash provenance as).map Observation.nonce).Nodup := by
  unfold supplied
  split
  · exact .nil
  · rw [List.map_cons, List.nodup_cons]
    split
    · rw [List.map_map]
      refine ⟨fun hmem => ?_, hdistinct⟩
      rcases List.mem_map.mp hmem with ⟨a, ha, hnonce⟩
      exact UInt64.ne_of_lt (mem_window ha).2.2 hnonce
    · exact ⟨List.not_mem_nil, .nil⟩

include hdistinct

theorem table_takeIn_perm (settings : Settings) (force : Bool) (hash : HeaderHash)
    (provenance : Provenance) :
    (d.takeIn settings force header hash provenance as).table
      = (d.takeIn settings force header hash provenance bs).table := by
  rw [table_takeIn_eq, table_takeIn_eq]
  exact HeaderTable.observeAll_perm (supplied_perm hperm hash provenance)
    (nodup_supplied hdistinct hash provenance) d.table

namespace Sound

variable (hs : d.Sound) (hgate : d.gateFault? settings env header provenance = none)
  (force : Bool) (hash : HeaderHash)

include hs hgate

/-- The histories are the same once they are pruned. -/
theorem prune_takeIn_perm :
    (d.takeIn settings force header hash provenance as).history.prune
      = (d.takeIn settings force header hash provenance bs).history.prune := by
  rcases hs.checkpoint_above hgate hash with ⟨hown, hlow⟩
  rw [history_takeIn, history_takeIn]
  split
  · exact hs.history.toOrdered.prune_commit_perm hown hlow (fun a ha => (mem_window ha).2.2) hperm
      hdistinct settings.finalDepth
  · rfl

theorem final_takeIn_perm :
    (d.takeIn settings force header hash provenance as).final
      = (d.takeIn settings force header hash provenance bs).final := by
  -- Pruning leaves the final checkpoint alone.
  have hfinal := congrArg History.final (hs.prune_takeIn_perm hperm hdistinct hgate force hash)
  exact hfinal

/-- Once tidied up, what the lists lead to is the same. -/
theorem tidy_takeIn_perm :
    (d.takeIn settings force header hash provenance as).tidy
      = (d.takeIn settings force header hash provenance bs).tidy := by
  have htable := table_takeIn_perm hperm hdistinct settings force hash provenance
  have hfinal := hs.final_takeIn_perm hperm hdistinct hgate force hash
  refine Detector.ext ?_ (hs.prune_takeIn_perm hperm hdistinct hgate force hash) ?_ ?_ ?_ ?_
  · simp only [tidy, htable, hfinal]
  -- The other fields do not depend on the ancestors.
  all_goals cases provenance <;> rfl

theorem tidyDifferences_takeIn_perm :
    (d.takeIn settings force header hash provenance as).tidyDifferences
      = (d.takeIn settings force header hash provenance bs).tidyDifferences := by
  have htable := table_takeIn_perm hperm hdistinct settings force hash provenance
  have hfinal := hs.final_takeIn_perm hperm hdistinct hgate force hash
  unfold tidyDifferences
  rw [htable, hfinal]

end Sound

end Lists

/-- A header of a reachable state may as well list other ancestors, provided that those in
    its window are the same up to their order and of distinct nonces. The answer is the
    same, every part of the state after it is the same, and the numbers computed on the
    way fit their words in one case if they do in the other. -/
theorem ancestors_unordered (h : Reaches settings genesis events d) {ancestors : List Ancestor}
    (hheader : o.header = some header)
    (hdistinct : ((d.window header o.ancestors).map Ancestor.nonce).Nodup)
    (hperm : (d.window header o.ancestors).Perm (d.window header ancestors)) :
    d.step settings (.offer env { o with ancestors }) = d.step settings (.offer env o) ∧
      (d.InRange settings (.offer env { o with ancestors }) ↔
        d.InRange settings (.offer env o)) := by
  have hs := h.sound sound_genesis
  unfold InRange
  simp only [step, differences, Detector.offer, offerDifferences, hheader]
  cases o.hash with
  | none => exact ⟨rfl, Iff.rfl⟩
  | some hash =>
      cases hgate : d.gateFault? settings env header o.provenance with
      | some rejection => simp only [hgate, and_self]
      | none =>
          cases hforces : d.forces settings env header o.provenance with
          | error fault => simp only [hgate, hforces, and_self]
          | ok force =>
              -- Only here the ancestors are looked at.
              have htidy := hs.tidy_takeIn_perm hperm hdistinct hgate force hash
              have hdiffs := hs.tidyDifferences_takeIn_perm hperm hdistinct hgate force hash
              simp only [hgate, hforces, accept, htidy, hdiffs, and_self]

/-- A fourth block with the competitors of the third and of the second as its ancestors,
    and with one ancestor outside its window. -/
def competitorsDown : Offer :=
  ⟨some (Sample.header 4 10), some (Sample.hash 4), .processed,
    [⟨3, 9, Sample.hash 30⟩, ⟨2, 9, Sample.hash 20⟩, ⟨7, 9, Sample.hash 70⟩]⟩

/-- The same competitors, the lower one first. -/
def competitorsUp : List Ancestor :=
  [⟨2, 9, Sample.hash 20⟩, ⟨3, 9, Sample.hash 30⟩]

/-- Listed from the top the competitors leave the second block in the history, listed from
    below they do not. After the offer there is no difference. -/
theorem competitors_unordered :
    ∃ d, Reaches lagThree genesis contestedBranch d ∧
      (d.step lagThree (.offer (Sample.surroundings 10) competitorsDown)).1 = .accepted ∧
      (d.takeIn lagThree false (Sample.header 4 10) (Sample.hash 4) .processed
          competitorsDown.ancestors).history
        ≠ (d.takeIn lagThree false (Sample.header 4 10) (Sample.hash 4) .processed
          competitorsUp).history ∧
      d.step lagThree
          (.offer (Sample.surroundings 10) { competitorsDown with ancestors := competitorsUp })
        = d.step lagThree (.offer (Sample.surroundings 10) competitorsDown) := by
  have h : Reaches lagThree genesis contestedBranch (genesis.run lagThree contestedBranch) :=
    reaches_iff.mpr ⟨by decide +kernel, rfl⟩
  refine ⟨_, h, by decide +kernel, by decide +kernel, ?_⟩
  exact (ancestors_unordered h rfl (by decide +kernel) (by decide +kernel)).1

end Detector

end HeaderChain

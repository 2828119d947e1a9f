import HeaderChain.Proofs.Detector.Intake

/-!
# Offering a Header Again

What a header does that is delivered twice.

Networks deliver messages more than once, and the second time must not count. For a
proposal it may, because then the node looks at the rounds and may declare a fork. For
anything else nothing is left to be done: the table knows the header as strongly as it is
offered, and if it is processed it is pushed in its own place.

What could make a difference is that the second delivery is measured against another final
checkpoint. It may be turned away for that reason, which changes nothing. If it is not, its
window is narrower than the first one was. It is empty in fact, because an ancestor in the
first window either became final or was passed over by finality.

## Theorems

* `Detector.step_offer_congr`: Of the world around it only the round matters to an offer
  that is no proposal.
* `Detector.Sound.window_accept`: The second window is empty.
* `Detector.Sound.takeIn_accept`, `Detector.Sound.accept_again`: Taking a header in again
  changes nothing.
* `Detector.redelivery_idle`: An offer that is no proposal may as well be made twice in a
  round.
-/

namespace HeaderChain

attribute [ext] Detector

namespace Detector

variable {settings : Settings} {env env' : Surroundings} {d : Detector} {events : List Event}
  {o : Offer} {header : Header} {provenance : Provenance} {force : Bool} {hash : HeaderHash}
  {ancestors : List Ancestor}

/-- Of the world around it only the round matters at the gates to a header that is no
    proposal. -/
theorem gateFault?_congr (hproposed : provenance ≠ .proposed) (hround : env'.round = env.round) :
    d.gateFault? settings env' header provenance = d.gateFault? settings env header provenance := by
  have horigin : originFault? env' header provenance = originFault? env header provenance := by
    cases provenance with
    | proposed => exact absurd rfl hproposed
    | _ => rfl
  rw [gateFault?, gateFault?, horigin, hround]

/-- And so it does for the whole offer. -/
theorem step_offer_congr (hproposed : o.provenance ≠ .proposed)
    (hround : env'.round = env.round) :
    d.step settings (.offer env' o) = d.step settings (.offer env o) := by
  have hoffer : d.offer settings env' o = d.offer settings env o := by
    unfold Detector.offer
    simp only [gateFault?_congr hproposed hround, forces_of_ne_proposed hproposed]
  simp only [step, hoffer]

/-- Taking in a header changes nothing if the table knows what it brings, the checkpoints
    are those that it would make and its round is that of the last one processed. -/
theorem takeIn_eq_self (hproposed : provenance ≠ .proposed)
    (htable : d.table.observeAll (d.supplied header hash provenance ancestors) = d.table)
    (hhistory : provenance = .processed → d.history.commit settings.finalDepth
      (header.checkpoint hash) (d.window header ancestors) = d.history)
    (hround : provenance = .processed → d.lastBlockRound = header.round) :
    d.takeIn settings false header hash provenance ancestors = d := by
  rw [← table_takeIn_eq settings d false] at htable
  refine Detector.ext htable ?_ ?_ ?_ ?_ ?_
  · rw [history_takeIn]
    split
    · next hprocessed => exact hhistory hprocessed
    · rfl
  · cases provenance <;> rfl
  · cases provenance with
    | processed => exact (hround rfl).symm
    | _ => rfl
  · cases provenance with
    | proposed => exact absurd rfl hproposed
    | _ => rfl
  · cases provenance <;> exact Bool.or_false _

namespace Sound

variable (hs : d.Sound)

include hs

section Processed

variable (hgate : d.gateFault? settings env header .processed = none) (force) (hash)
  (ancestors)

include hgate

/-- After a processed header was taken in, its window is empty. -/
theorem window_accept :
    (d.accept settings force header hash .processed ancestors).window header ancestors = [] := by
  rcases hs.checkpoint_above hgate hash with ⟨hown, hlow⟩
  have hup := (History.yieldsTo_commit d.history settings.finalDepth (header.checkpoint hash)
    (d.window header ancestors)).nonce_le
  refine List.eq_nil_iff_forall_not_mem.mpr fun a ha => ?_
  rcases mem_window ha with ⟨hmem, habove, hbelow⟩
  -- It was in the first window, and finality has reached it.
  have hfirst : a ∈ d.window header ancestors :=
    mem_window_iff.mpr ⟨hmem, UInt64.lt_of_le_of_lt hup habove, hbelow⟩
  have hle := hs.history.toOrdered.le_final_commit hown hlow (fun b hb => (mem_window hb).2.2)
    hfirst settings.finalDepth
  exact UInt64.not_lt.mpr hle habove

/-- The checkpoints that it makes are there already. -/
theorem commit_accept :
    (d.accept settings force header hash .processed ancestors).history.commit settings.finalDepth
        (header.checkpoint hash) []
      = (d.accept settings force header hash .processed ancestors).history := by
  rcases hs.checkpoint_above hgate hash with ⟨hown, hlow⟩
  exact hs.history.toOrdered.commit_again hown hlow fun a ha => (mem_window ha).2.2

end Processed

variable (hgate : d.gateFault? settings env header provenance = none)
  (hproposed : provenance ≠ .proposed) (force) (hash) (ancestors)

include hgate hproposed

/-- The table knows the header as strongly as it is offered. -/
theorem observe_accept :
    (d.accept settings force header hash provenance ancestors).table.observe
        ⟨header.nonce, header.round, hash, provenance⟩
      = (d.accept settings force header hash provenance ancestors).table := by
  rcases hs.exists_own_accept settings force hash ancestors hgate hproposed with
    ⟨y, hy, hnonce, hhash, hle⟩
  have ht := (hs.accept hgate force hash ancestors).table.toConsistent
  exact ht.observe_eq_of_known (HeaderTable.mem_row.mpr ⟨hy, hnonce⟩) hhash hle

/-- What is taken in twice leaves a detector as it was after the first time. -/
theorem takeIn_accept :
    (d.accept settings force header hash provenance ancestors).takeIn settings false header hash
        provenance ancestors
      = d.accept settings force header hash provenance ancestors := by
  have hobserve := hs.observe_accept force hash ancestors hgate hproposed
  by_cases hprocessed : provenance = .processed
  · subst hprocessed
    have hwindow := hs.window_accept force hash ancestors hgate
    refine takeIn_eq_self hproposed ?_ (fun _ => ?_) fun _ => ?_
    · rw [supplied, if_neg hproposed, if_pos rfl, hwindow]
      exact hobserve
    · rw [hwindow]
      exact hs.commit_accept force hash ancestors hgate
    · rw [lastBlockRound_accept, if_pos rfl]
  · refine takeIn_eq_self hproposed ?_ (fun h => absurd h hprocessed) fun h => absurd h hprocessed
    rw [supplied, if_neg hproposed, if_neg hprocessed]
    exact hobserve

/-- Nor is there anything to be tidied up or estimated anew. -/
theorem accept_again :
    (d.accept settings force header hash provenance ancestors).accept settings false header hash
        provenance ancestors
      = d.accept settings force header hash provenance ancestors := by
  have htidy := (hs.accept hgate force hash ancestors).tidy_eq
  rw [Detector.accept, hs.takeIn_accept force hash ancestors hgate hproposed, htidy]
  rfl

end Sound

/-- An offer that is no proposal may as well be made twice. In any reachable state, if the
    same header under the same hash and with the same ancestors is offered again at once
    and in the same round, the detector is left as it was after the first time, whether or
    not the second offer is accepted. -/
theorem redelivery_idle (h : Reaches settings genesis events d)
    (hproposed : o.provenance ≠ .proposed) (hround : env'.round = env.round) :
    ((d.step settings (.offer env o)).2.step settings (.offer env' o)).2
      = (d.step settings (.offer env o)).2 := by
  have hs := h.sound sound_genesis
  rw [step_offer_congr hproposed hround]
  by_cases haccepted : (d.step settings (.offer env o)).1 = .accepted
  · rcases step_of_accepted haccepted with ⟨header, hash, force, hheader, hhash, hgate, _, hfirst⟩
    rw [hfirst]
    by_cases hagain : ((d.accept settings force header hash o.provenance o.ancestors).step settings
        (.offer env o)).1 = .accepted
    · rcases step_of_accepted hagain with
        ⟨header', hash', force', hheader', hhash', _, hforces, hsecond⟩
      cases hheader.symm.trans hheader'
      cases hhash.symm.trans hhash'
      cases (forces_of_ne_proposed hproposed).symm.trans hforces
      rw [hsecond]
      exact hs.accept_again force hash o.ancestors hgate hproposed
    · exact step_of_not_accepted hagain
  · -- The first offer changes nothing, so the second one finds what the first found.
    have hsame := step_of_not_accepted haccepted
    rw [hsame, hsame]

/-- The header that takes in two competitors is accepted twice, and the second time nothing
    changes, although another final checkpoint stands by then. -/
theorem redelivery_of_contestedThird :
    ∃ d, Reaches lagThree genesis contestedBranch d ∧ contestedThird.provenance ≠ .proposed ∧
      (d.step lagThree (.offer (Sample.surroundings 10) contestedThird)).2.final ≠ d.final ∧
      ((d.step lagThree (.offer (Sample.surroundings 10) contestedThird)).2.step lagThree
        (.offer (Sample.surroundings 10) contestedThird)).1 = .accepted ∧
      ((d.step lagThree (.offer (Sample.surroundings 10) contestedThird)).2.step lagThree
          (.offer (Sample.surroundings 10) contestedThird)).2
        = (d.step lagThree (.offer (Sample.surroundings 10) contestedThird)).2 := by
  have h : Reaches lagThree genesis contestedBranch (genesis.run lagThree contestedBranch) :=
    reaches_iff.mpr ⟨by decide +kernel, rfl⟩
  exact ⟨_, h, nofun, by decide +kernel, by decide +kernel, redelivery_idle h nofun rfl⟩

end Detector

end HeaderChain

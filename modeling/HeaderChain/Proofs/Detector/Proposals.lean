import HeaderChain.Proofs.Detector.Influence

/-!
# Proposals Are Intents

A node that proposes blocks chooses among forks like one that does not.

What a proposal is meant to change is known beforehand: the nonce of the last
proposal, the estimate of the tip, and whether the node declares a fork. But an
accepted proposal also tidies up, over the whole table and all checkpoints, and
the numbers it tidies up by are those that finality has moved to. That nothing
goes then is not a matter of the proposal. It is because whatever moved finality
has tidied up itself, so the detector that the proposal finds is sound already.

A declared fork is reported without a look at the table, so a proposal that
declares one does show. As long as none does, a run and what is left of it
without its proposals go through states that `Coincides` relates: they differ in
the tip and in the last proposal, and those are read by proposals only.

## Main definitions

* `Event.isProposal`: An operation is the offer of a proposed header.
* `Detector.Coincides`: Two detectors differ at most in the tip and in the last
  proposal.
* `Entry.Coincides`: Two runs coincide in an operation.
* `Detector.InStep`: What relates the states of a run to those of what is left of it.

## Theorems

* `Detector.Effect.view_of_proposal`: What a proposal leaves alone.
* `Detector.Coincides.step`: Detectors that coincide go on to coincide.
* `Detector.fork_choice_without_proposals`: Taking the proposals out of a run
  changes nothing in the rest of it.
-/

namespace HeaderChain

/-- Whether an operation is the offer of a proposed header. -/
def Event.isProposal : Event → Bool
  | .offer _ o => o.provenance == .proposed
  | _ => false

/-- Two detectors agree, have the same table and both have declared a fork or
    neither has. -/
structure Detector.Coincides (d d' : Detector) : Prop extends d.Agrees d' where
  /-- The tables are the same. -/
  table : d.table = d'.table
  /-- So is what they have declared. -/
  forced : d.forced = d'.forced

/-- An operation is answered the same in two runs and leaves detectors that
    coincide. -/
structure Entry.Coincides (e e' : Entry) : Prop where
  /-- It is the same operation. -/
  event : e.event = e'.event
  /-- It has the same answer. -/
  answer : e.answer = e'.answer
  /-- It leaves detectors that coincide. -/
  after : e.after.Coincides e'.after

namespace Detector

variable {settings : Settings} {d d' : Detector} {event : Event} {events : List Event}

/-- A proposal that is taken in leaves a sound detector with what it had, but for
    the last proposal, the estimate that is made after it and the declared fork. -/
theorem Sound.accept_proposed (hs : d.Sound) (settings : Settings) (force : Bool) (header : Header)
    (hash : HeaderHash) (ancestors : List Ancestor) :
    d.accept settings force header hash .proposed ancestors
      = ({ d with forced := d.forced || force, lastProposed := header.nonce } : Detector).estimateTip
      := by
  -- Neither part of the invariant reads what a proposal notes.
  have hnoted : ({ d with forced := d.forced || force, lastProposed := header.nonce }
      : Detector).Sound := ⟨hs.history, hs.table⟩
  change ({ d with forced := d.forced || force, lastProposed := header.nonce }
    : Detector).tidy.estimateTip = _
  rw [hnoted.tidy_eq]

/-- The offer of a proposal changes nothing but the tip, the last proposal and the
    declared fork. -/
theorem Effect.view_of_proposal {answer : Answer} (h : Effect settings d event answer d')
    (hs : d.Sound) (hproposal : event.isProposal = true) :
    d' = { d with tip := d'.tip, lastProposed := d'.lastProposed, forced := d'.forced } := by
  cases h with
  | accept env o header hash force _ _ _ _ =>
      rw [beq_iff_eq.mp hproposal, hs.accept_proposed]
      rfl
  | idle _ _ _ => rfl
  | retreat _ _ => rfl
  | rollBack _ _ => exact absurd hproposal Bool.false_ne_true
  | scan _ => exact absurd hproposal Bool.false_ne_true
  | clearForced => exact absurd hproposal Bool.false_ne_true
  | restart => exact absurd hproposal Bool.false_ne_true
  | settleAll => exact absurd hproposal Bool.false_ne_true

namespace Coincides

theorem refl (d : Detector) : d.Coincides d :=
  ⟨.refl d, rfl, rfl⟩

theorem trans {u : Detector} (h : d.Coincides d') (h' : d'.Coincides u) : d.Coincides u :=
  ⟨h.toAgrees.trans h'.toAgrees, h.table.trans h'.table, h.forced.trans h'.forced⟩

/-- Detectors that coincide differ in two places only. -/
theorem eq_update (h : d.Coincides d') :
    d' = { d with tip := d'.tip, lastProposed := d'.lastProposed } := by
  rcases d with ⟨table, history, tip, lastBlockRound, lastProposed, forced⟩
  rcases d' with ⟨table', history', tip', lastBlockRound', lastProposed', forced'⟩
  rcases h with ⟨⟨hhistory, hround⟩, htable, hforced⟩
  dsimp only at hhistory hround htable hforced
  rw [hhistory, hround, htable, hforced]

/-- A header that is no proposal is taken in alike, and tidying up comes to the
    same. -/
theorem takeIn (h : d.Coincides d') (settings : Settings) (force : Bool) (header : Header)
    (hash : HeaderHash) {provenance : Provenance} (hp : provenance ≠ .proposed)
    (ancestors : List Ancestor) :
    (d.takeIn settings force header hash provenance ancestors).Coincides
      (d'.takeIn settings force header hash provenance ancestors) := by
  rw [h.eq_update]
  cases provenance with
  | proposed => exact absurd rfl hp
  | _ => exact ⟨⟨rfl, rfl⟩, rfl, rfl⟩

theorem tidy_estimateTip (h : d.Coincides d') :
    d.tidy.estimateTip.Coincides d'.tidy.estimateTip := by
  rw [h.eq_update]
  exact ⟨⟨rfl, rfl⟩, rfl, rfl⟩

theorem tidyDifferences_eq (h : d.Coincides d') : d.tidyDifferences = d'.tidyDifferences := by
  unfold tidyDifferences
  rw [h.table, h.final_eq]

/-- It is refused by both for the same reason or taken in by both. -/
theorem offer (h : d.Coincides d') (settings : Settings) (env : Surroundings) {o : Offer}
    (ho : o.provenance ≠ .proposed) :
    (∃ refusal, d.offer settings env o = .error refusal ∧
        d'.offer settings env o = .error refusal) ∨
      ∃ u u', d.offer settings env o = .ok u ∧ d'.offer settings env o = .ok u' ∧
        u.Coincides u' := by
  unfold Detector.offer
  cases o.header with
  | none => exact .inl ⟨_, rfl, rfl⟩
  | some header =>
      cases o.hash with
      | none => exact .inl ⟨_, rfl, rfl⟩
      | some hash =>
          simp only [forces_of_ne_proposed ho, h.gateFault?_eq]
          cases d'.gateFault? settings env header o.provenance with
          | some rejection => exact .inl ⟨_, rfl, rfl⟩
          | none =>
              have htaken := h.takeIn settings false header hash ho o.ancestors
              exact .inr ⟨_, _, rfl, rfl, htaken.tidy_estimateTip⟩

/-- The same numbers are computed for it. -/
theorem offerDifferences_eq (h : d.Coincides d') (settings : Settings) (env : Surroundings)
    {o : Offer} (ho : o.provenance ≠ .proposed) :
    d.offerDifferences settings env o = d'.offerDifferences settings env o := by
  unfold offerDifferences
  cases o.header with
  | none => rfl
  | some header =>
      cases o.hash with
      | none => rfl
      | some hash =>
          have htaken := h.takeIn settings false header hash ho o.ancestors
          simp only [h.gateDifferences_eq, h.gateFault?_eq, forces_of_ne_proposed ho,
            forceDifferences, if_neg ho, htaken.tidyDifferences_eq]

/-- A check for forks finds the same. -/
theorem check (h : d.Coincides d') : d.check.1 = d'.check.1 ∧ d.check.2.Coincides d'.check.2 := by
  unfold Detector.check
  rw [h.forced]
  split
  · exact ⟨rfl, h⟩
  · rw [h.table]
    exact ⟨rfl, ⟨h.history, h.lastBlockRound⟩, rfl, rfl⟩

/-- Detectors that coincide go on to coincide, and give the same answers. -/
theorem step (h : d.Coincides d') (settings : Settings) (hevent : event.isProposal = false) :
    (d.step settings event).2.Coincides (d'.step settings event).2 ∧
      (d.step settings event).1 = (d'.step settings event).1 := by
  cases event with
  | offer env o =>
      rcases h.offer settings env (beq_eq_false_iff_ne.mp hevent) with
        ⟨refusal, hd, hd'⟩ | ⟨u, u', hd, hd', hu⟩
      · simp only [Detector.step, hd, hd']
        cases refusal with
        | rejected rejection => exact ⟨h, rfl⟩
        | faulted fault => exact ⟨h, rfl⟩
      · simp only [Detector.step, hd, hd', and_true]
        exact hu
  | check => exact ⟨h.check.2, congrArg Answer.verdict h.check.1⟩
  | retreatIfIdle round =>
      -- Whether the node has been idle is judged by the last block alone.
      by_cases hidle : settings.maxRoundsIdle.toInt < round.toInt - signed d'.lastBlockRound
      · simp only [Detector.step, Detector.retreatIfIdle, h.lastBlockRound, hidle, if_true]
        cases settings.isCheckRound round with
        | error fault => exact ⟨h, rfl⟩
        | ok fires =>
            cases fires with
            | false => exact ⟨h, rfl⟩
            | true => exact ⟨⟨⟨h.history, h.lastBlockRound⟩, h.table, h.forced⟩, rfl⟩
      · simp only [Detector.step, Detector.retreatIfIdle, h.lastBlockRound, hidle, if_false, and_true]
        exact h
  | restart => exact ⟨.refl _, rfl⟩
  | rollBack _ _ | retreat | clearForced | settleAll =>
      rw [h.eq_update]
      exact ⟨⟨⟨rfl, rfl⟩, rfl, rfl⟩, rfl⟩

/-- What is in range for one is in range for the other. -/
theorem inRange (h : d.Coincides d') (hevent : event.isProposal = false)
    (hr : d.InRange settings event) : d'.InRange settings event := by
  have hsame : d'.differences settings event = d.differences settings event := by
    cases event with
    | offer env o => exact (h.offerDifferences_eq settings env (beq_eq_false_iff_ne.mp hevent)).symm
    | retreatIfIdle round =>
        unfold differences
        rw [h.lastBlockRound]
    | settleAll =>
        rw [h.eq_update]
        rfl
    | _ => rfl
  unfold InRange
  rw [hsame]
  exact hr

end Coincides

/-- How the states of a run in which no fork is ever declared relate to those of what is
    left of it without its proposals. -/
structure InStep (d d' : Detector) : Prop extends d.Coincides d' where
  /-- The state of the whole run is sound. -/
  sound : d.Sound
  /-- No fork is declared. -/
  unforced : d.forced = false

theorem inStep_genesis : genesis.InStep genesis :=
  ⟨.refl genesis, sound_genesis, rfl⟩

/-- A proposal is carried out in the whole run only. -/
theorem InStep.drop (h : d.InStep d') (hproposal : event.isProposal = true)
    (hunforced : (d.step settings event).2.forced = false) :
    (d.step settings event).2.InStep d' := by
  have heffect := effect_step settings d event
  have hview := heffect.view_of_proposal h.sound hproposal
  have hstays : (d.step settings event).2.Coincides d := by
    rw [hview]
    exact ⟨⟨rfl, rfl⟩, rfl, hunforced.trans h.unforced.symm⟩
  exact ⟨hstays.trans h.toCoincides, heffect.sound h.sound, hunforced⟩

/-- Any other operation is carried out in both. -/
theorem InStep.keep (h : d.InStep d') (hother : event.isProposal = false)
    (hunforced : (d.step settings event).2.forced = false) :
    (d.step settings event).2.InStep (d'.step settings event).2 :=
  ⟨(h.toCoincides.step settings hother).1, (effect_step settings d event).sound h.sound, hunforced⟩

/-- Proposals stay out of fork choice. In any reachable state an accepted proposal
    changes at most the tip, the last proposal and the declared fork. And take from
    a run in which no fork is ever declared every offer of a proposal. What is left
    is a run in range. Each of its operations has the answer that it has in the
    whole run, so the same headers are accepted and the same forks are found, and
    leaves the same table, the same checkpoints, the final one among them, and the
    same round of the header processed last. -/
theorem fork_choice_without_proposals {d : Detector} (h : Reaches settings genesis events d) :
    (∀ env o, o.provenance = .proposed → (d.step settings (.offer env o)).1 = .accepted →
        ∃ tip lastProposed forced,
          (d.step settings (.offer env o)).2 = { d with tip, lastProposed, forced }) ∧
      ((∀ e ∈ genesis.trace settings events, e.after.forced = false) →
        (∃ d', Reaches settings genesis (events.filter fun e => !e.isProposal) d' ∧
          d.Coincides d') ∧
        List.Forall₂ Entry.Coincides
          ((genesis.trace settings events).filter fun e => !e.event.isProposal)
          (genesis.trace settings (events.filter fun e => !e.isProposal))) := by
  constructor
  · intro env o hproposed _
    have hview := (effect_step settings d (.offer env o)).view_of_proposal
      (h.sound sound_genesis) (beq_iff_eq.mpr hproposed)
    exact ⟨_, _, _, hview⟩
  · intro hforced
    have hunforced : ∀ u event, Visits settings genesis events u event →
        (u.step settings event).2.forced = false := fun u event hu => hforced _ hu.mem_trace
    have hdropped : ∀ u u' event, Visits settings genesis events u event →
        (!event.isProposal) = false → u.InStep u' → (u.step settings event).2.InStep u' :=
      fun u u' event hu hproposal hrel =>
        hrel.drop (Bool.not_eq_false' _ ▸ hproposal) (hunforced u event hu)
    have hkept : ∀ u u' event, Visits settings genesis events u event →
        (!event.isProposal) = true → u.InStep u' →
        (u.step settings event).2.InStep (u'.step settings event).2 :=
      fun u u' event hu hother hrel =>
        hrel.keep (Bool.not_eq_true' _ ▸ hother) (hunforced u event hu)
    constructor
    · rcases h.filter _ inStep_genesis hdropped fun u u' event hu hother hrel =>
        ⟨hkept u u' event hu hother hrel,
          hrel.inRange (Bool.not_eq_true' _ ▸ hother)⟩ with ⟨d', hd', hrel⟩
      exact ⟨d', hd', hrel.toCoincides⟩
    · exact trace_filter _ inStep_genesis hdropped fun u u' event hu hother hrel =>
        ⟨hkept u u' event hu hother hrel, rfl,
          (hrel.step settings (Bool.not_eq_true' _ ▸ hother)).2,
          (hkept u u' event hu hother hrel).toCoincides⟩

/-- Two processed headers, the second of which loses to a received one, is rolled
    back and replaced by it. -/
def replacedBlocks : List Event :=
  [Sample.offer 1 9 1 .processed [], Sample.offer 2 11 3 .received [],
    Sample.offer 2 10 4 .processed [], .check, .rollBack 2 (Sample.hash 4),
    Sample.offer 2 11 3 .processed [], .check]

/-- The same with the node's own proposals, one of which is rejected. -/
def replacedAndProposedBlocks : List Event :=
  [Sample.offer 1 9 1 .processed [], Sample.offer 2 10 2 .proposed [],
    Sample.offer 2 11 3 .received [], Sample.offer 2 10 4 .processed [],
    Sample.offer 3 11 5 .proposed [], .check, Sample.offer 9 9 6 .proposed [],
    .rollBack 2 (Sample.hash 4), Sample.offer 2 11 3 .processed [], .check]

/-- The node finds the same fork at the second nonce, whether it proposes or not,
    and accepts the same header in its place. -/
theorem fork_choice_of_replacedBlocks :
    ∃ d d', Reaches .standard genesis replacedAndProposedBlocks d ∧
      (∀ e ∈ genesis.trace .standard replacedAndProposedBlocks, e.after.forced = false) ∧
      (replacedAndProposedBlocks.filter fun e => !e.isProposal) = replacedBlocks ∧
      Reaches .standard genesis replacedBlocks d' ∧ d.Coincides d' ∧
      d.lastProposed = 3 ∧ d'.lastProposed = 0 ∧ d'.final = ⟨1, 9, some (Sample.hash 1)⟩ ∧
      (genesis.trace .standard replacedBlocks).map (·.answer)
        = [.accepted, .accepted, .accepted,
            .verdict (.forked 2 ⟨.observed 11, Sample.hash 3⟩), .done, .accepted,
            .verdict .clear] ∧
      List.Forall₂ Entry.Coincides
        ((genesis.trace .standard replacedAndProposedBlocks).filter fun e => !e.event.isProposal)
        (genesis.trace .standard replacedBlocks) ∧
      ∃ tip lastProposed forced,
        (d.step .standard (Sample.offer 3 11 5 .proposed [])).2
          = { d with tip, lastProposed, forced } := by
  have h : Reaches .standard genesis replacedAndProposedBlocks
      (genesis.run .standard replacedAndProposedBlocks) := reaches_iff.mpr ⟨by decide +kernel, rfl⟩
  have hforced : ∀ e ∈ genesis.trace .standard replacedAndProposedBlocks,
      e.after.forced = false := by decide +kernel
  rcases fork_choice_without_proposals h with ⟨hproposal, hrun⟩
  rcases hrun hforced with ⟨⟨d', hd', hsame⟩, htrace⟩
  have hkept : (replacedAndProposedBlocks.filter fun e => !e.isProposal) = replacedBlocks := rfl
  have hend : d' = genesis.run .standard replacedBlocks := hd'.eq_run
  refine ⟨_, d', h, hforced, hkept, hd', hsame, by decide +kernel, ?_, ?_, by decide +kernel, htrace,
    hproposal _ _ rfl (by decide +kernel)⟩
  · rw [hend]
    decide +kernel
  · rw [hend]
    decide +kernel

end Detector

end HeaderChain

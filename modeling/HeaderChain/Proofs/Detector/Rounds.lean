import HeaderChain.Proofs.Detector.Finality
import HeaderChain.Proofs.History.Rounds
import Mathlib.Data.List.Infix

/-!
# Rounds Along a Run

Whether the rounds of a chain go up with it.

A processed header is measured by the final checkpoint and by nothing else. It
has to be of a later round than that, but it is put on top of the last
checkpoint, and of that it may be of an earlier round. So the rounds of the
checkpoints can run backwards, and when finality then moves up to the header,
the final round moves down. That headers on top of one another are of later and
later rounds is for whoever links them to see to.

`rounds_advance_iff` says that nothing else is in the way. In a run without
certified ancestors the rounds go up in every state exactly if every processed
header that is accepted is of a later round than the checkpoints it is put on
top of. Then the final checkpoint is of no later round than the last one and
never goes back to an earlier round, and a header of a later round than the last
checkpoint may be too old, but it passes the gate of place. At depth zero every
processed header is final at once, and the gates alone see to this.

## Main definitions

* `Event.Bare`: No certified ancestors come with an operation.
* `Detector.BuildsUp`, `Detector.BuildsUpAlong`: A processed header is of a later
  round than what it is put on top of.
* `Detector.Uncertified`: The invariant of a run without certified ancestors.

## Theorems

* `Detector.Effect.marks_cases`: An operation adds one mark or none.
* `Detector.Effect.uncertified`: Every operation keeps the invariant.
* `Detector.Effect.paced`: An operation that builds up keeps the rounds in order.
* `Detector.Reaches.climbing_iff`: The checkpoints climb exactly if a run builds
  up.
* `Detector.rounds_advance_iff`: When the rounds go up along a run.
* `Detector.rounds_run_backwards`: A run in which they do not.
-/

namespace HeaderChain

/-- No certified ancestors come with an operation. -/
def Event.Bare : Event → Prop
  | .offer _ o => o.ancestors = []
  | _ => True

instance (event : Event) : Decidable event.Bare :=
  match event with
  | .offer _ o => inferInstanceAs (Decidable (o.ancestors = []))
  | .rollBack _ _ | .check | .retreatIfIdle _ | .retreat | .clearForced | .restart | .settleAll =>
    inferInstanceAs (Decidable True)

namespace Detector

/-- If an operation takes in a processed header, that is of a later round than
    the checkpoints below it. -/
def BuildsUp (settings : Settings) (d : Detector) (event : Event) : Prop :=
  ∀ env o header, event = .offer env o → o.header = some header → o.provenance = .processed →
    (d.step settings event).1 = .accepted →
    ∀ c ∈ d.history.checkpoints, c.nonce < header.nonce → c.round < header.round

/-- So it is for every operation of a run. -/
def BuildsUpAlong (settings : Settings) (d : Detector) (events : List Event) : Prop :=
  ∀ u event, Visits settings d events u event → u.BuildsUp settings event

variable {settings : Settings} {d d' : Detector} {event : Event} {events : List Event}

/-- Without certified ancestors an operation adds one mark or none. What it adds
    is a processed header, which is pushed before the depth rule is applied. -/
theorem Effect.marks_cases {answer : Answer} (h : Effect settings d event answer d')
    (hrestart : event ≠ .restart) (hbare : event.Bare) :
    d'.history.marks ⊆ d.history.marks ∨
      ∃ env o header hash, event = .offer env o ∧ o.header = some header ∧
        o.provenance = .processed ∧ answer = .accepted ∧
        d.gateFault? settings env header .processed = none ∧
        d'.history
          = ((d.history.push (header.checkpoint hash)).settle settings.finalDepth).prune := by
  cases h with
  | accept env o header hash force hheader _ hgate _ =>
      by_cases hp : o.provenance = .processed
      · have hnone : o.ancestors = [] := hbare
        rw [hp] at hgate
        refine .inr ⟨env, o, header, hash, rfl, hheader, hp, rfl, hgate, ?_⟩
        rw [hp, hnone]
        exact d.history_accept_processed settings force header hash
      · left
        rw [history_accept, history_takeIn, if_neg hp]
        exact History.marks_filter _ _
  | idle _ _ _ => exact .inl (List.Subset.refl _)
  | rollBack _ _ => exact .inl (History.marks_filter _ _)
  | scan _ => exact .inl (List.Subset.refl _)
  | retreat _ _ => exact .inl (List.Subset.refl _)
  | clearForced => exact .inl (List.Subset.refl _)
  | restart => exact absurd rfl hrestart
  | settleAll =>
      exact .inl (List.Subset.trans (History.marks_filter _ _) (History.marks_settleAll d.history))

/-- The invariant of a run without certified ancestors. -/
structure Uncertified (settings : Settings) (d : Detector) : Prop where
  /-- The detector is sound. -/
  sound : d.Sound
  /-- The rounds are low, so that they are read as they are. -/
  low : ∀ c ∈ d.history.marks, Low c.round
  /-- At depth zero nothing lies above the final checkpoint. -/
  flat : settings.finalDepth = 0 → ∀ c ∈ d.history.checkpoints, c.nonce ≤ d.final.nonce

theorem uncertified_genesis : genesis.Uncertified settings where
  sound := sound_genesis
  low := by decide
  flat _ := by decide

namespace Uncertified

variable (hu : d.Uncertified settings)

include hu

/-- A header that passes the gates is of a later round than the final
    checkpoint. -/
theorem round_lt {env : Surroundings} {header : Header} {provenance : Provenance}
    (hgate : d.gateFault? settings env header provenance = none) :
    d.final.round < header.round ∧ Low header.round :=
  final_round_lt_of_gate (hu.low _ List.mem_cons_self) hgate

/-- The marks of a processed header that is taken in were there before and lie
    below it, or are its own. -/
theorem mem_marks_commit {env : Surroundings} {header : Header} {hash : HeaderHash}
    {c : Checkpoint} (hgate : d.gateFault? settings env header .processed = none)
    (hc : c ∈ ((d.history.push (header.checkpoint hash)).settle
      settings.finalDepth).prune.marks) :
    (c ∈ d.history.marks ∧ c.nonce < header.nonce) ∨ c = header.checkpoint hash := by
  exact (History.mem_marks_push (hu.sound.checkpoint_above hgate hash).1).mp
    (History.marks_settle _ _ (History.marks_filter _ _ hc))

end Uncertified

/-- Every operation keeps the invariant. -/
theorem Effect.uncertified {answer : Answer} (h : Effect settings d event answer d')
    (hu : d.Uncertified settings) (hrestart : event ≠ .restart) (hbare : event.Bare) :
    d'.Uncertified settings := by
  have hsound := h.sound hu.sound
  have hyields := (h.yieldsTo hrestart).nonce_le
  rcases h.marks_cases hrestart hbare with
    hsub | ⟨env, o, header, hash, _, _, _, _, hgate, hhistory⟩
  · refine ⟨hsound, fun c hc => hu.low c (hsub hc), fun hdepth c hc => ?_⟩
    rcases List.mem_cons.mp (hsub (List.mem_cons_of_mem _ hc)) with rfl | hold
    · exact hyields
    · exact UInt64.le_trans (hu.flat hdepth c hold) hyields
  · rcases hu.sound.checkpoint_above hgate hash with ⟨hown, hlow⟩
    have hmarks : ∀ c ∈ d'.history.marks,
        (c ∈ d.history.marks ∧ c.nonce < header.nonce) ∨ c = header.checkpoint hash := by
      rw [hhistory]
      exact fun c hc => hu.mem_marks_commit hgate hc
    refine ⟨hsound, fun c hc => ?_, fun hdepth c hc => ?_⟩
    · rcases hmarks c hc with ⟨hold, _⟩ | rfl
      · exact hu.low c hold
      · exact (hu.round_lt hgate).2
    · -- The header itself is final, and all that is kept lies below it.
      have hfinal : d'.final = header.checkpoint hash := by
        rw [final, hhistory, hdepth]
        exact hu.sound.history.final_settle_push hown hlow
      rw [hfinal]
      rcases hmarks c (List.mem_cons_of_mem _ hc) with ⟨_, hbelow⟩ | rfl
      · exact UInt64.le_of_lt hbelow
      · exact UInt64.le_refl _

/-- Every run without certified ancestors keeps the invariant, unless it starts
    over. -/
theorem Reaches.uncertified (h : Reaches settings d events d') (hu : d.Uncertified settings)
    (hrestart : .restart ∉ events) (hbare : ∀ event ∈ events, event.Bare) :
    d'.Uncertified settings :=
  h.invariant hu fun u event hvisit hu =>
    (effect_step settings u event).uncertified hu (fun he => hrestart (he ▸ hvisit.mem))
      (hbare event hvisit.mem)

/-- An operation that builds up on paced checkpoints leaves paced checkpoints,
    and the final one is of no earlier round than before. -/
theorem Effect.paced {answer : Answer} (h : Effect settings d event answer d')
    (hu : d.Uncertified settings) (hrestart : event ≠ .restart) (hbare : event.Bare)
    (hstep : answer = (d.step settings event).1) (hbuild : d.BuildsUp settings event)
    (hp : d.history.Paced) : d'.history.Paced ∧ d.final.round ≤ d'.final.round := by
  -- The final checkpoints of before and after are among marks that are paced.
  have hpaced : ∃ h₁ : History, h₁.Paced ∧ d.final ∈ h₁.marks ∧ d'.history.marks ⊆ h₁.marks := by
    rcases h.marks_cases hrestart hbare with
      hsub | ⟨env, o, header, hash, hevent, hheader, hprocessed, haccepted, hgate, hhistory⟩
    · exact ⟨d.history, hp, List.mem_cons_self, hsub⟩
    · have hown := (final_lt_of_gate hu.sound.history.final_low hgate).1
      have hlater : ∀ a ∈ d.history.marks, a.nonce < header.nonce → a.round < header.round := by
        intro a ha halt
        rcases List.mem_cons.mp ha with rfl | hmem
        · exact (hu.round_lt hgate).1
        · exact hbuild env o header hevent hheader hprocessed (hstep ▸ haccepted) a hmem halt
      refine ⟨d.history.push (header.checkpoint hash), hp.push hown hlater, List.mem_cons_self, ?_⟩
      rw [hhistory]
      exact List.Subset.trans (History.marks_filter _ _) (History.marks_settle _ _)
  rcases hpaced with ⟨h₁, hp₁, hfinal, hsub⟩
  refine ⟨hp₁.of_subset hsub, ?_⟩
  rcases h.yieldsTo hrestart with hsame | hlt
  · rw [hsame]
    exact UInt64.le_refl _
  · exact UInt64.le_of_lt (hp₁ _ hfinal _ (hsub List.mem_cons_self) hlt)

/-- A run that builds up leaves the checkpoints paced, and the final one of no
    earlier round than before. -/
theorem Reaches.paced (h : Reaches settings d events d') (hu : d.Uncertified settings)
    (hrestart : .restart ∉ events) (hbare : ∀ event ∈ events, event.Bare)
    (hbuild : BuildsUpAlong settings d events) (hp : d.history.Paced) :
    d'.history.Paced ∧ d.final.round ≤ d'.final.round := by
  have hend : d'.Uncertified settings ∧ d'.history.Paced ∧ d.final.round ≤ d'.final.round := by
    refine h.invariant (P := fun u => u.Uncertified settings ∧ u.history.Paced ∧
      d.final.round ≤ u.final.round) ⟨hu, hp, UInt64.le_refl _⟩ ?_
    rintro u event hvisit ⟨hu, hp, hle⟩
    have heffect := effect_step settings u event
    have hevent : event ≠ .restart := fun he => hrestart (he ▸ hvisit.mem)
    have hbare := hbare event hvisit.mem
    rcases heffect.paced hu hevent hbare rfl (hbuild u event hvisit) hp with ⟨hp', hle'⟩
    exact ⟨heffect.uncertified hu hevent hbare, hp', UInt64.le_trans hle hle'⟩
  exact hend.2

theorem paced_genesis : genesis.history.Paced := by
  -- All marks are the first block, and that does not lie above itself.
  have hmarks : ∀ c ∈ genesis.history.marks, c = Checkpoint.genesis := by decide
  intro a ha b hb hab
  rw [hmarks a ha, hmarks b hb] at hab
  exact absurd hab (UInt64.lt_irrefl _)

namespace Uncertified

variable (hu : d.Uncertified settings)

include hu

/-- At depth zero every operation builds up. -/
theorem buildsUp_of_flat (hdepth : settings.finalDepth = 0) : d.BuildsUp settings event := by
  rintro env o header rfl hheader _ haccepted c hc _
  rcases step_of_accepted haccepted with ⟨header', _, _, hheader', _, hgate, _⟩
  rw [hheader, Option.some.injEq] at hheader'
  rw [← hheader'] at hgate
  -- The only entry is the final checkpoint.
  have hnonce := UInt64.le_antisymm (hu.flat hdepth c hc) (hu.sound.history.above c hc)
  rw [hu.sound.history.agrees c hc hnonce]
  exact (hu.round_lt hgate).1

/-- An operation builds up if the checkpoints climb before it and after it. -/
theorem buildsUp_of_climbing (hbare : event.Bare) (hbefore : Climbing d.history.checkpoints)
    (hafter : Climbing (d.step settings event).2.history.checkpoints) :
    d.BuildsUp settings event := by
  by_cases hdepth : settings.finalDepth = 0
  · exact hu.buildsUp_of_flat hdepth
  · rintro env o header rfl hheader hprocessed haccepted c hc hlt
    rcases step_of_accepted haccepted with ⟨header', hash, force, hheader', _, hgate, _, hstep⟩
    rw [hheader, Option.some.injEq] at hheader'
    rw [← hheader'] at hgate hstep
    have hnone : o.ancestors = [] := hbare
    rw [hstep, hprocessed, hnone, history_accept_processed] at hafter
    rcases hu.sound.checkpoint_above hgate hash with ⟨hown, hlow⟩
    -- Something as high as the entry is still there below the header.
    rcases hu.sound.history.exists_kept_below hown hlow hdepth hc hlt with
      ⟨e, he, hle, hbelow, hkept⟩
    have hround : e.round < header.round :=
      hafter.round_lt hkept (History.mem_prune_settle_push hown _) hbelow
    rcases UInt64.lt_or_eq_of_le hle with hbetween | heq
    · exact UInt64.lt_trans (hbefore.round_lt hc he hbetween) hround
    · rw [hu.sound.history.ascending.eq_of_nonce_eq hc he heq]
      exact hround

/-- With paced checkpoints, a header of a later round than the last one, but not
    beyond the next, is rejected for a low round only if it is too old. -/
theorem late_of_roundTooLow (hp : d.history.Paced) {env : Surroundings} {o : Offer}
    {header : Header} (hrange : d.InRange settings (.offer env o))
    (hheader : o.header = some header) (hlater : d.last.round < header.round)
    (hnext : header.round.toNat ≤ env.round.toInt + 1) {round : UInt64} {limit : Int}
    (hrejected : (d.step settings (.offer env o)).1 = .rejected (.roundTooLow round limit)) :
    o.provenance ≠ .processed ∧
      signed header.round < env.round.toInt - settings.blockFinality.toInt := by
  rcases rejected_cases hheader hrejected with ⟨_, hnone⟩ | ⟨hash, hhash, hgate⟩
  · exact absurd hnone (by simp only [reduceCtorEq, not_false_eq_true])
  · rcases roundTooLow_cases hgate with hplace | hage
    · have hfits : Fits (env.round.toInt + 1) := by
        refine hrange _ ?_
        simp only [differences, offerDifferences, hheader, hhash, gateDifferences]
        simp only [List.mem_append, List.mem_cons, true_or, or_true]
      have hlow : Low header.round := low_of_le_next hfits hnext
      have hfinal : Low d.final.round := hu.low _ List.mem_cons_self
      have hle : d.final.round < header.round :=
        UInt64.lt_of_le_of_lt (hp.final_le_last hu.sound.history) hlater
      have hle' := UInt64.lt_iff_toNat_lt.mp hle
      rw [distance_of_low hlow hfinal] at hplace
      omega
    · exact hage

end Uncertified

section Run

variable (h : Reaches settings genesis events d) (hrestart : .restart ∉ events)
  (hbare : ∀ event ∈ events, event.Bare)

include h hrestart hbare

/-- The invariant holds wherever a run is cut. -/
theorem Reaches.uncertified_run {before : List Event} (hcut : before <+: events) :
    (genesis.run settings before).Uncertified settings := by
  rcases hcut with ⟨after, rfl⟩
  exact h.of_append.1.uncertified uncertified_genesis
    (fun he => hrestart (List.mem_append_left _ he))
    fun event he => hbare event (List.mem_append_left _ he)

/-- If the run builds up, the checkpoints are paced there, and from there on the
    final round goes up. -/
theorem Reaches.paced_run (hbuild : BuildsUpAlong settings genesis events) {before : List Event}
    (hcut : before <+: events) :
    (genesis.run settings before).history.Paced ∧
      (genesis.run settings before).final.round ≤ d.final.round := by
  have hu := h.uncertified_run hrestart hbare hcut
  rcases hcut with ⟨after, rfl⟩
  rcases h.of_append with ⟨hfirst, hsecond⟩
  have hp := (hfirst.paced uncertified_genesis (fun he => hrestart (List.mem_append_left _ he))
    (fun event he => hbare event (List.mem_append_left _ he))
    (fun u event hvisit => hbuild u event (hvisit.append_right after)) paced_genesis).1
  exact ⟨hp, (hsecond.paced hu (fun he => hrestart (List.mem_append_right _ he))
    (fun event he => hbare event (List.mem_append_right _ he))
    (fun u event hvisit => hbuild u event (hvisit.append_left before)) hp).2⟩

/-- The checkpoints climb all along exactly if the run builds up. -/
theorem Reaches.climbing_iff :
    (∀ before, before <+: events → Climbing (genesis.run settings before).history.checkpoints) ↔
      BuildsUpAlong settings genesis events := by
  constructor
  · rintro hclimbing u event ⟨before, after, rfl, rfl⟩
    have hmem : event ∈ before ++ event :: after := List.mem_append_right _ List.mem_cons_self
    have hafter := hclimbing (before ++ [event]) ⟨after, by rw [List.append_assoc]; rfl⟩
    rw [run_append] at hafter
    exact (h.uncertified_run hrestart hbare (List.prefix_append _ _)).buildsUp_of_climbing
      (hbare event hmem) (hclimbing before (List.prefix_append _ _)) hafter
  · intro hbuild before hcut
    have hascending := (h.uncertified_run hrestart hbare hcut).sound.history.ascending
    have hp := (h.paced_run hrestart hbare hbuild hcut).1
    refine hascending.climbing_iff.mpr fun a ha b hb => ?_
    exact hp a (List.mem_cons_of_mem _ ha) b (List.mem_cons_of_mem _ hb)

/-- At depth zero every run builds up. -/
theorem Reaches.buildsUpAlong_of_flat (hdepth : settings.finalDepth = 0) :
    BuildsUpAlong settings genesis events := by
  rintro u event ⟨before, after, rfl, rfl⟩
  exact (h.uncertified_run hrestart hbare (List.prefix_append _ _)).buildsUp_of_flat hdepth

end Run

/-- When the rounds go up along a run that neither starts over nor is given
    certified ancestors. The nonces always do. The rounds go up with them in every
    state of the run exactly if every processed header that is accepted is of a
    later round than the checkpoints below it, which at depth zero is always so.
    Then the final checkpoint is of no later round than the last one, and of no
    earlier round than any that was final before. And a header of a later round
    than the last checkpoint, but not beyond the next one, is rejected for a low
    round only if it is not processed and too old. -/
theorem rounds_advance_iff (h : Reaches settings genesis events d) (hrestart : .restart ∉ events)
    (hbare : ∀ event ∈ events, event.Bare) :
    Ascending d.history.checkpoints ∧
      ((∀ before, before <+: events → Climbing (genesis.run settings before).history.checkpoints) ↔
        BuildsUpAlong settings genesis events) ∧
      (settings.finalDepth = 0 → BuildsUpAlong settings genesis events) ∧
      (BuildsUpAlong settings genesis events →
        d.final.round ≤ d.last.round ∧
        (∀ before, before <+: events →
          (genesis.run settings before).final.round ≤ d.final.round) ∧
        ∀ env o header, d.InRange settings (.offer env o) → o.header = some header →
          d.last.round < header.round → header.round.toNat ≤ env.round.toInt + 1 →
          ∀ round limit,
            (d.step settings (.offer env o)).1 = .rejected (.roundTooLow round limit) →
            o.provenance ≠ .processed ∧
              signed header.round < env.round.toInt - settings.blockFinality.toInt) := by
  have hu : d.Uncertified settings := h.uncertified uncertified_genesis hrestart hbare
  refine ⟨hu.sound.history.ascending, h.climbing_iff hrestart hbare,
    h.buildsUpAlong_of_flat hrestart hbare, fun hbuild => ?_⟩
  have hp := (h.paced uncertified_genesis hrestart hbare hbuild paced_genesis).1
  refine ⟨hp.final_le_last hu.sound.history, ?_, ?_⟩
  · exact fun before hcut => (h.paced_run hrestart hbare hbuild hcut).2
  · intro env o header hrange hheader hlater hnext round limit hrejected
    exact hu.late_of_roundTooLow hp hrange hheader hlater hnext hrejected

/-- A chain of three whose tip is replaced. Then the final block is rolled back,
    which leaves it final but takes its entry. -/
def replacedThird : List Event :=
  [Sample.offer 1 1 1 .processed [], Sample.offer 2 2 2 .processed [],
    Sample.offer 3 3 3 .processed [], .rollBack 3 (Sample.hash 3),
    Sample.offer 3 5 4 .processed [], .rollBack 2 (Sample.hash 2)]

/-- Its checkpoints climb all along, so the final round goes up with it, and a
    fourth block of a later round can only be too old. -/
theorem rounds_of_replacedThird :
    ∃ d, Reaches .standard genesis replacedThird d ∧ .restart ∉ replacedThird ∧
      (∀ event ∈ replacedThird, event.Bare) ∧ d.final = ⟨2, 2, some (Sample.hash 2)⟩ ∧
      d.last = ⟨3, 5, some (Sample.hash 4)⟩ ∧ d.final.round ≤ d.last.round ∧
      (∀ before, before <+: replacedThird →
        (genesis.run .standard before).final.round ≤ d.final.round) ∧
      (d.step .standard (Sample.offer 4 8 5 .received [])).1 = .rejected (.roundTooLow 8 9) ∧
      signed 8 < (10 : Int64).toInt - Settings.standard.blockFinality.toInt := by
  have h : Reaches .standard genesis replacedThird (genesis.run .standard replacedThird) :=
    reaches_iff.mpr ⟨by decide, rfl⟩
  have hrestart : .restart ∉ replacedThird := by
    simp only [replacedThird, Sample.offer, List.mem_cons, List.not_mem_nil, reduceCtorEq,
      or_false, not_false_eq_true]
  have hbare : ∀ event ∈ replacedThird, event.Bare := by decide
  have hclimbing : ∀ before ∈ replacedThird.inits,
      Climbing (genesis.run .standard before).history.checkpoints := by decide
  rcases rounds_advance_iff h hrestart hbare with ⟨_, hiff, _, hrounds⟩
  have hbuild : BuildsUpAlong .standard genesis replacedThird :=
    hiff.mp fun before hcut => hclimbing before ((List.mem_inits _ _).mpr hcut)
  rcases hrounds hbuild with ⟨hle, hmono, hchild⟩
  have hrejected : ((genesis.run .standard replacedThird).step .standard
      (Sample.offer 4 8 5 .received [])).1 = .rejected (.roundTooLow 8 9) := by decide
  have hold := hchild _ _ (Sample.header 4 8) (by decide) rfl (by decide) (by decide) 8 9 hrejected
  exact ⟨_, h, hrestart, hbare, by decide, by decide, hle, hmono, hrejected, hold.2⟩

/-- A first block of round five with a second one of round three on top. -/
def outOfPace : List Event :=
  [Sample.offer 1 5 1 .processed [], Sample.offer 2 3 2 .processed []]

/-- Both are accepted, so the rounds run backwards, and the last checkpoint is of
    an earlier round than the final one. A third block of round four is rejected,
    although that is later than the last round. One of round seven is accepted and
    takes the final round back from five to three. And on the first block of all,
    a received header of the next round is rejected if it is too old. -/
theorem rounds_run_backwards :
    ∃ d, Reaches .standard genesis outOfPace d ∧ .restart ∉ outOfPace ∧
      (∀ event ∈ outOfPace, event.Bare) ∧ ¬ Climbing d.history.checkpoints ∧
      d.last.round < d.final.round ∧
      d.InRange .standard (Sample.offer 3 4 3 .processed []) ∧
      d.last.nonce + 1 = 3 ∧ d.last.round < 4 ∧
      (d.step .standard (Sample.offer 3 4 3 .processed [])).1 = .rejected (.roundTooLow 4 5) ∧
      d.InRange .standard (Sample.offer 3 7 3 .processed []) ∧
      (d.step .standard (Sample.offer 3 7 3 .processed [])).1 = .accepted ∧
      (d.step .standard (Sample.offer 3 7 3 .processed [])).2.final.round < d.final.round ∧
      genesis.InRange .standard (Sample.offer 1 1 1 .received []) ∧
      (genesis.step .standard (Sample.offer 1 1 1 .received [])).1
        = .rejected (.roundTooLow 1 9) := by
  have hrestart : .restart ∉ outOfPace := by
    simp only [outOfPace, Sample.offer, List.mem_cons, List.not_mem_nil, reduceCtorEq, or_false,
      not_false_eq_true]
  exact ⟨genesis.run .standard outOfPace, reaches_iff.mpr ⟨by decide, rfl⟩, hrestart, by decide,
    by decide, by decide, by decide, by decide, by decide, by decide, by decide, by decide,
    by decide, by decide, by decide⟩

end Detector

end HeaderChain

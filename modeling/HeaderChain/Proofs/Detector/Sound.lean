import HeaderChain.Proofs.Detector.Effect
import HeaderChain.Proofs.Detector.Run
import HeaderChain.Proofs.HeaderTable.Sound
import HeaderChain.Sample

/-!
# Sound Detectors

What is true of a detector in every state that a run can reach.

A detector is sound if its checkpoints are and if its table is, measured
against the final checkpoint. Most operations keep this for simple reasons:
they do not touch either, or they only drop something. Two of them move
finality. Both end by tidying up, and what they leave for that is `Orderly`,
which is all that tidying up needs to make the detector sound again.

The theorem about runs spells out what soundness means for the checkpoints.
It holds for every operation in any order, starting over included.

## Main definitions

* `Detector.Orderly`: What an operation leaves to be tidied up.
* `Detector.Sound`: What holds between operations.

## Theorems

* `Detector.Orderly.tidy`: Tidying up makes an orderly detector sound.
* `Detector.Sound.tidy_eq`: A sound one has nothing to tidy up.
* `Detector.Sound.checkpoint_above`: What has passed the gates may be committed.
* `Detector.Sound.takeIn`: Taking in a header leaves a detector orderly.
* `Detector.Effect.sound`: Every operation keeps a detector sound.
* `Detector.Sound.run`, `Detector.Reaches.sound`: And so does every run.
* `Detector.checkpoints_of_reaches`: The checkpoints in a reachable state.
-/

namespace HeaderChain

namespace Detector

/-- The invariant of a detector before it is tidied up. -/
structure Orderly (d : Detector) : Prop where
  /-- The checkpoints are ordered. -/
  history : d.history.Ordered
  /-- The table is regular. -/
  table : d.table.Regular

/-- The invariant of a detector between two operations. -/
structure Sound (d : Detector) : Prop where
  /-- The checkpoints are sound. -/
  history : d.history.Sound
  /-- The table is sound, measured against the final checkpoint. -/
  table : d.table.Sound d.final

/-- A detector that starts with the chain is sound. -/
theorem sound_genesis : genesis.Sound where
  history := History.sound_genesis
  table := HeaderTable.sound_empty _

/-- Tidying up makes an orderly detector sound. -/
theorem Orderly.tidy {d : Detector} (h : d.Orderly) : d.tidy.Sound where
  history := h.history.prune
  table := h.table.tidy d.final

theorem regular_foldl_noteAncestor {t : HeaderTable} (ht : t.Regular) (ancestors : List Ancestor) :
    (ancestors.foldl noteAncestor t).Regular := by
  induction ancestors generalizing t with
  | nil => exact ht
  | cons a rest ih => exact ih (ht.observe nofun)

namespace Sound

variable {d : Detector}

theorem rollBack (hs : d.Sound) (nonce : UInt64) (hash : HeaderHash) :
    (d.rollBack nonce hash).Sound where
  history := hs.history.forget nonce
  table := hs.table.keep _

theorem scan (hs : d.Sound) : { d with table := d.table.scan.2 }.Sound where
  history := hs.history
  table := hs.table.keep _

theorem settleAll (hs : d.Sound) : { d with history := d.history.settleAll }.Orderly where
  history := hs.history.toOrdered.settleAll
  table := hs.table.toRegular

/-- The checkpoint of a header that has passed the gates lies above the final one and is
    low. -/
theorem checkpoint_above (hs : d.Sound) {settings : Settings} {env : Surroundings}
    {header : Header} {provenance : Provenance}
    (hgate : d.gateFault? settings env header provenance = none) (hash : HeaderHash) :
    d.history.final.nonce < (header.checkpoint hash).nonce ∧
      Low (header.checkpoint hash).nonce :=
  final_lt_of_gate hs.history.final_low hgate

/-- Taking in a header that has passed the gates leaves a detector
    orderly. -/
theorem takeIn (hs : d.Sound) {settings : Settings} {env : Surroundings} {header : Header}
    {provenance : Provenance} (hgate : d.gateFault? settings env header provenance = none)
    (force : Bool) (hash : HeaderHash) (ancestors : List Ancestor) :
    (d.takeIn settings force header hash provenance ancestors).Orderly where
  history := by
    -- Only a processed header is committed.
    rw [history_takeIn]
    split
    · rcases hs.checkpoint_above hgate hash with ⟨hown, hlow⟩
      exact hs.history.toOrdered.commit hown hlow fun a ha => (mem_window ha).2.2
    · exact hs.history.toOrdered
  table := by
    -- Only a proposal is not observed.
    rw [table_takeIn]
    split
    · exact hs.table.toRegular
    · next hproposed =>
      exact regular_foldl_noteAncestor (hs.table.toRegular.observe hproposed) _

/-- Taking in a header that has passed the gates keeps a detector sound. -/
theorem accept (hs : d.Sound) {settings : Settings} {env : Surroundings} {header : Header}
    {provenance : Provenance} (hgate : d.gateFault? settings env header provenance = none)
    (force : Bool) (hash : HeaderHash) (ancestors : List Ancestor) :
    (d.accept settings force header hash provenance ancestors).Sound :=
  -- The tip is estimated last, and neither part of the invariant reads it.
  have htidy := (hs.takeIn hgate force hash ancestors).tidy
  ⟨htidy.history, htidy.table⟩

/-- A sound detector has nothing to tidy up. -/
theorem tidy_eq (hs : d.Sound) : d.tidy = d := by
  unfold Detector.tidy
  rw [hs.history.prune_eq, hs.table.tidy_eq]

end Sound

variable {settings : Settings}

/-- Every operation keeps a detector sound. -/
theorem Effect.sound {d d' : Detector} {event : Event} {answer : Answer}
    (h : Effect settings d event answer d') (hs : d.Sound) : d'.Sound := by
  cases h with
  | accept _ o _ hash force _ _ hgate _ => exact hs.accept hgate force hash o.ancestors
  | idle _ _ _ => exact hs
  | rollBack nonce hash => exact hs.rollBack nonce hash
  | scan _ => exact hs.scan
  | retreat _ _ => exact ⟨hs.history, hs.table⟩
  | clearForced => exact ⟨hs.history, hs.table⟩
  | restart => exact sound_genesis
  | settleAll => exact hs.settleAll.tidy

/-- A run keeps a detector sound. -/
theorem Sound.run {d : Detector} (hs : d.Sound) (events : List Event) :
    (d.run settings events).Sound := by
  induction events generalizing d with
  | nil => exact hs
  | cons event rest ih => exact ih ((effect_step settings d event).sound hs)

theorem Reaches.sound {d d' : Detector} {events : List Event}
    (h : Reaches settings d events d') (hs : d.Sound) : d'.Sound :=
  h.eq_run ▸ hs.run events

/-- The checkpoints in a reachable state strictly ascend from the final one
    on. The last of them is the final one if it has its nonce, so it can
    always be made final. -/
theorem checkpoints_of_reaches {d : Detector} {events : List Event}
    (h : Reaches settings genesis events d) :
    d.history.checkpoints.Pairwise (fun a b => a.nonce < b.nonce) ∧
      (∀ c ∈ d.history.checkpoints, d.final.nonce ≤ c.nonce) ∧
      (∀ c ∈ d.history.checkpoints, c.nonce = d.final.nonce → c = d.final) ∧
      d.final.nonce ≤ d.last.nonce ∧
      (d.last.nonce = d.final.nonce → d.last = d.final) ∧
      (d.step settings .settleAll).2.final = d.last := by
  have hs := h.sound sound_genesis
  exact ⟨hs.history.ascending, hs.history.above, hs.history.agrees, hs.history.final_le_last,
    hs.history.last_eq_final, hs.history.final_settleAll⟩

/-- A chain of three whose tip is rolled back and processed anew. -/
def reprocessedTip : List Event :=
  [Sample.offer 1 1 1 .processed [], Sample.offer 2 2 2 .processed [],
    Sample.offer 3 3 3 .processed [], .rollBack 3 (Sample.hash 3),
    Sample.offer 3 5 4 .processed []]

/-- Its history has the final entry and one above, which can be made final. -/
theorem checkpoints_of_reprocessedTip :
    ∃ d, Reaches .standard genesis reprocessedTip d ∧
      d.history.checkpoints.map (·.nonce) = [2, 3] ∧
      d.history.checkpoints.Pairwise (fun a b => a.nonce < b.nonce) ∧
      d.last = ⟨3, 5, some (Sample.hash 4)⟩ ∧ (d.step .standard .settleAll).2.final = d.last := by
  have h : Reaches .standard genesis reprocessedTip (genesis.run .standard reprocessedTip) :=
    reaches_iff.mpr ⟨by decide, rfl⟩
  refine ⟨_, h, by decide, (checkpoints_of_reaches h).1, by decide, ?_⟩
  exact (checkpoints_of_reaches h).2.2.2.2.2

end Detector

end HeaderChain

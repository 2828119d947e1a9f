import HeaderChain.Proofs.Detector.Sound
import HeaderChain.Proofs.HeaderTable.Processed

/-!
# Checkpoints Are Backed by the Table

The chain that the checkpoints describe is the chain of processed headers in
the table.

The two are kept apart and changed apart. A processed header enters both, but
from then on the checkpoints are replaced, certified, rolled back and pruned
without a look at the table, and the table takes in the headers of others,
makes room for them and is cut down without a look at the checkpoints. That
they still describe one chain is so above the final checkpoint only. At the
final nonce and below an ancestor may have taken the place of a processed
header, and a parent chain's word is all there is for it.

This is what makes the statement go through: an ancestor that becomes a
checkpoint is final at once, so a checkpoint above the final one was made by a
processed header. Whatever removes that header from the table either removes
the checkpoint as well or moves finality past it.

## Main definitions

* `Detector.Backed`: The table backs every checkpoint above the final one.

## Theorems

* `Detector.Backed.last_processed`: The table backs a tip above the final checkpoint.
* `Detector.Backed.takeIn`: Taking in a header keeps checkpoints backed.
* `Detector.Effect.backed`: Every operation does.
* `Detector.Reaches.backed`: And so does every run.
* `Detector.checkpoints_processed`: The checkpoints of a reachable state above
  the final one are processed headers of the table.
-/

namespace HeaderChain

namespace Detector

/-- The table backs every checkpoint above the final one. -/
def Backed (d : Detector) : Prop :=
  ∀ c ∈ d.history.checkpoints, d.final.nonce < c.nonce → d.table.Backs c

theorem backed_genesis : genesis.Backed := by
  intro c hc hlt
  rw [List.mem_singleton.mp hc] at hlt
  exact absurd hlt (UInt64.lt_irrefl _)

/-- Certified ancestors are observed one after the other. -/
theorem foldl_noteAncestor (ancestors : List Ancestor) (t : HeaderTable) :
    ancestors.foldl noteAncestor t = t.observeAll (ancestors.map Ancestor.observation) := by
  rw [HeaderTable.observeAll, List.foldl_map]
  rfl

/-- They leave the processed headers alone. -/
theorem mem_row_foldl_noteAncestor {t : HeaderTable} (ht : t.Consistent) {nonce : UInt64}
    {o : Observation} (ho : o ∈ t.row nonce) (hprocessed : o.provenance = .processed)
    (ancestors : List Ancestor) : o ∈ (ancestors.foldl noteAncestor t).row nonce := by
  rw [foldl_noteAncestor]
  refine ht.mem_row_observeAll_of_processed ho hprocessed fun p hp => ?_
  rcases List.mem_map.mp hp with ⟨a, _, rfl⟩
  exact nofun

namespace Backed

variable {settings : Settings} {d : Detector}

/-- A tip above the final checkpoint is a processed header of the table. -/
theorem last_processed (hb : d.Backed) (h : d.final.nonce < d.last.nonce) :
    ∃ o ∈ d.table.row d.last.nonce, o.provenance = .processed ∧ d.last.hash = some o.hash :=
  hb d.last (History.last_mem_of_final_lt h) h

/-- Taking in a header that has passed the gates keeps the checkpoints
    backed. -/
theorem takeIn (hb : d.Backed) (hs : d.Sound) {env : Surroundings} {header : Header}
    {provenance : Provenance} (hgate : d.gateFault? settings env header provenance = none)
    (force : Bool) (hash : HeaderHash) (ancestors : List Ancestor) :
    (d.takeIn settings force header hash provenance ancestors).Backed := by
  intro c hc hlt
  unfold final at hlt
  rw [history_takeIn] at hc hlt
  unfold HeaderTable.Backs
  rw [table_takeIn]
  have ht := hs.table.toConsistent
  by_cases hp : provenance = .processed
  · subst hp
    simp only [reduceCtorEq, if_false, if_true] at hc hlt ⊢
    have ht' := ht.observe ⟨header.nonce, header.round, hash, .processed⟩
    rcases hs.checkpoint_above hgate hash with ⟨hown, hlow⟩
    rcases hs.history.toOrdered.mem_commit_of_final_lt hown hlow (fun a ha => (mem_window ha).2.2)
      hc hlt with ⟨hold, hbelow⟩ | rfl
    · -- An old checkpoint lies below the header, so its row is another one.
      have hle := (History.yieldsTo_commit d.history settings.finalDepth (header.checkpoint hash)
        (d.window header ancestors)).nonce_le
      rcases hb c hold (UInt64.lt_of_le_of_lt hle hlt) with ⟨o, ho, hprocessed, hhash⟩
      have hnonce : header.nonce ≠ c.nonce := (UInt64.ne_of_lt hbelow).symm
      have ho' := ht.mem_row_observe_of_processed
        (o := ⟨header.nonce, header.round, hash, .processed⟩) ho hprocessed fun _ => hnonce
      exact ⟨o, mem_row_foldl_noteAncestor ht' ho' hprocessed _, hprocessed, hhash⟩
    · rcases d.table.exists_processed_observe
        (o := ⟨header.nonce, header.round, hash, .processed⟩) rfl with ⟨o, ho, hprocessed, hhash⟩
      refine ⟨o, mem_row_foldl_noteAncestor ht' ho hprocessed _, hprocessed, ?_⟩
      exact congrArg some hhash.symm
  · -- The checkpoints stay as they are, and so do the processed headers.
    simp only [hp, if_false, List.foldl_nil] at hc hlt ⊢
    rcases hb c hc hlt with ⟨o, ho, hprocessed, hhash⟩
    refine ⟨o, ?_, hprocessed, hhash⟩
    by_cases hproposed : provenance = .proposed
    · rw [if_pos hproposed]
      exact ho
    · rw [if_neg hproposed]
      exact ht.mem_row_observe_of_processed ho hprocessed fun h => absurd h hp

/-- Tidying up drops nothing above the final checkpoint that is processed. -/
theorem tidy (hb : d.Backed) : d.tidy.Backed := by
  intro c hc hlt
  rcases hb c (List.mem_filter.mp hc).1 hlt with ⟨o, ho, hprocessed, hhash⟩
  exact ⟨o, HeaderTable.mem_row_tidy_of_processed ho hprocessed (UInt64.le_of_lt hlt), hprocessed,
    hhash⟩

/-- Rolling back drops a checkpoint with everything that may back it. -/
theorem rollBack (hb : d.Backed) (nonce : UInt64) (hash : HeaderHash) :
    (d.rollBack nonce hash).Backed := by
  intro c hc hlt
  rcases List.mem_filter.mp hc with ⟨hmem, hne⟩
  rcases hb c hmem hlt with ⟨o, ho, hprocessed, hhash⟩
  refine ⟨o, ?_, hprocessed, hhash⟩
  rw [Detector.rollBack, HeaderTable.row_retract_of_ne (bne_iff_ne.mp hne)]
  exact ho

theorem scan (hb : d.Backed) (hs : d.Sound) : { d with table := d.table.scan.2 }.Backed := by
  intro c hc hlt
  rcases hb c hc hlt with ⟨o, ho, hprocessed, hhash⟩
  exact ⟨o, hs.table.toConsistent.mem_row_scan_of_processed ho hprocessed, hprocessed, hhash⟩

theorem settleAll (hb : d.Backed) : { d with history := d.history.settleAll }.Backed := by
  intro c hc hlt
  have hle := (History.yieldsTo_settleAll d.history).nonce_le
  simp only [History.settleAll, History.checkpoints_raise] at hc
  exact hb c hc (UInt64.lt_of_le_of_lt hle hlt)

end Backed

variable {settings : Settings} {d d' : Detector} {event : Event} {events : List Event}

/-- Every operation keeps the checkpoints backed. -/
theorem Effect.backed {answer : Answer} (h : Effect settings d event answer d') (hs : d.Sound)
    (hb : d.Backed) : d'.Backed := by
  cases h with
  | accept _ o _ hash force _ _ hgate _ => exact (hb.takeIn hs hgate force hash o.ancestors).tidy
  | idle _ _ _ => exact hb
  | rollBack nonce hash => exact hb.rollBack nonce hash
  | scan _ => exact hb.scan hs
  | retreat _ _ => exact hb
  | clearForced => exact hb
  | restart => exact backed_genesis
  | settleAll => exact hb.settleAll.tidy

/-- A run keeps the checkpoints backed. -/
theorem Reaches.backed (h : Reaches settings d events d') (hs : d.Sound) (hb : d.Backed) :
    d'.Backed := by
  induction h with
  | refl _ => exact hb
  | step d event _ _ _ _ ih =>
      have heffect := effect_step settings d event
      exact ih (heffect.sound hs) (heffect.backed hs hb)

/-- In a reachable state every checkpoint above the final one is a processed
    header of the table, at the same nonce and under the same hash. -/
theorem checkpoints_processed (h : Reaches settings genesis events d) :
    ∀ c ∈ d.history.checkpoints, d.final.nonce < c.nonce →
      ∃ o ∈ d.table.row c.nonce, o.provenance = .processed ∧ c.hash = some o.hash :=
  h.backed sound_genesis backed_genesis

/-- Settings that make final what lies three nonces below the last one. -/
def lagThree : Settings :=
  { Settings.standard with finalDepth := 3 }

/-- A chain of three whose tip gives way to a header received earlier. On top of
    that comes a fourth block, with a competitor of the second that a parent
    chain has certified. -/
def overtakenTip : List Event :=
  [Sample.offer 1 1 1 .processed [], Sample.offer 2 2 2 .processed [],
    Sample.offer 3 9 9 .received [], Sample.offer 3 3 3 .processed [], .check,
    Sample.offer 3 9 9 .processed [], Sample.offer 4 10 4 .processed [⟨2, 5, Sample.hash 20⟩]]

/-- The competitor is final without being processed. The checkpoints above it
    are processed headers, and the tip that gave way is neither. -/
theorem checkpoints_of_overtakenTip :
    ∃ d, Reaches lagThree genesis overtakenTip d ∧
      d.history.checkpoints.map (·.hash)
        = [some (Sample.hash 20), some (Sample.hash 9), some (Sample.hash 4)] ∧
      d.table.row 2 = [⟨2, 2, Sample.hash 2, .processed⟩, ⟨2, 5, Sample.hash 20, .notarized⟩] ∧
      d.final.nonce < 3 ∧
      ∃ o ∈ d.table.row 3, o.provenance = .processed ∧ some (Sample.hash 9) = some o.hash := by
  have h : Reaches lagThree genesis overtakenTip (genesis.run lagThree overtakenTip) :=
    reaches_iff.mpr ⟨by decide, rfl⟩
  have hthird := checkpoints_processed h ⟨3, 9, some (Sample.hash 9)⟩ (by decide) (by decide)
  exact ⟨_, h, by decide, by decide, by decide, hthird⟩

end Detector

end HeaderChain

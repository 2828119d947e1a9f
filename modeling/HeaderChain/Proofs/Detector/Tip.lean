import HeaderChain.Proofs.Detector.Backing
import Mathlib.Order.Bounds.Defs

/-!
# The Estimate of the Tip

How the estimate of the tip relates to the checkpoints.

A detector estimates the tip when it takes in a header and at no other time
looks for it again. The estimate is made from the table and from the last
proposal, not from the checkpoints, and until the next one the table may be
cut down and the checkpoints rolled back or made final. Still the last
checkpoint never lies above it. When an estimate is made, that is because a
checkpoint above the final one is backed by a header of the table. Afterwards
it is because the last checkpoint only moves up together with an estimate:
rolling back and pruning drop checkpoints, and making the last one final leaves
it where it is.

The lead of the tip over the last checkpoint is a difference of signed words.
That it is not negative takes a little more, namely that the estimate is a low
word. So all that an estimate can be made from is kept low as well.

## Main definitions

* `Detector.Indicates`: A nonce speaks for a tip at least as high.
* `Detector.Bracketed`: The estimate does not fall below the last checkpoint,
  and it is made from low words.

## Theorems

* `Detector.tipEstimate_isGreatest`: The estimate is the highest nonce that
  speaks for it.
* `Detector.Backed.last_le_tipEstimate`: It does not fall below the last
  checkpoint.
* `Detector.Effect.bracketed`: No operation makes it do so.
* `Detector.tip_brackets_chain`: The tip in a reachable state.
-/

namespace HeaderChain

instance lawfulMax : Std.LawfulOrderLeftLeaningMax UInt64 where
  max_eq_left a b h := by
    by_cases hab : a ≤ b
    · rw [UInt64.le_antisymm hab h]
      exact if_pos (UInt64.le_refl b)
    · exact if_neg hab
  max_eq_right _ _ h := if_pos (UInt64.le_of_lt (UInt64.not_le.mp h))

namespace Detector

/-- A nonce speaks for a tip at least as high: it is final, a header was
    proposed on top of it, or a header of it was seen. -/
inductive Indicates (d : Detector) : UInt64 → Prop
  /-- It is the final nonce. -/
  | final : Indicates d d.final.nonce
  /-- The last proposal builds on it. -/
  | proposed : 0 < d.lastProposed → Indicates d (d.lastProposed - 1)
  /-- The table holds a header of it. -/
  | seen (o : Observation) : o ∈ d.table.observations → Indicates d o.nonce

theorem le_tipEstimate {d : Detector} {n : UInt64} (hn : d.Indicates n) : n ≤ d.tipEstimate := by
  have hbounds := Std.max_le_iff.mp (UInt64.le_refl d.tipEstimate)
  rcases hn with _ | hpos | ⟨o, ho⟩
  · exact (Std.max_le_iff.mp hbounds.1).1
  · have hproposed := (Std.max_le_iff.mp hbounds.1).2
    rw [if_pos hpos] at hproposed
    exact hproposed
  · cases hhighest : d.table.highest? with
    | none =>
        rw [HeaderTable.highest?_eq_none_iff.mp hhighest] at ho
        exact absurd ho List.not_mem_nil
    | some m =>
        have hseen := hbounds.2
        rw [hhighest] at hseen
        exact UInt64.le_trans ((HeaderTable.highest?_spec hhighest).2 o ho) hseen

/-- What lies above the final nonce is no default, so something speaks for
    it. -/
theorem indicates_of_final_lt {d : Detector} (hlt : d.final.nonce < d.tipEstimate) :
    d.Indicates d.tipEstimate := by
  have hnonzero : d.tipEstimate ≠ 0 := fun hzero => UInt64.not_lt.mpr UInt64.zero_le (hzero ▸ hlt)
  unfold tipEstimate at hlt hnonzero ⊢
  rcases Std.max_eq_or
    (a := max d.final.nonce (if 0 < d.lastProposed then d.lastProposed - 1 else 0))
    (b := d.table.highest?.getD 0) with hmax | hmax
  · rw [hmax] at hlt hnonzero ⊢
    rcases Std.max_eq_or (a := d.final.nonce)
      (b := if 0 < d.lastProposed then d.lastProposed - 1 else 0) with hmax | hmax
    · rw [hmax]
      exact .final
    · rw [hmax] at hnonzero ⊢
      by_cases hpos : 0 < d.lastProposed
      · rw [if_pos hpos]
        exact .proposed hpos
      · rw [if_neg hpos] at hnonzero
        exact absurd rfl hnonzero
  · rw [hmax] at hnonzero ⊢
    cases hhighest : d.table.highest? with
    | none =>
        rw [hhighest] at hnonzero
        exact absurd rfl hnonzero
    | some n =>
        rcases (HeaderTable.highest?_spec hhighest).1 with ⟨o, ho, rfl⟩
        exact .seen o ho

/-- The estimate of the tip is the highest nonce that speaks for it. -/
theorem tipEstimate_isGreatest (d : Detector) : IsGreatest {n | d.Indicates n} d.tipEstimate := by
  refine ⟨?_, fun n hn => le_tipEstimate hn⟩
  change d.Indicates d.tipEstimate
  rcases UInt64.lt_or_eq_of_le (le_tipEstimate (d := d) .final) with hlt | heq
  · exact indicates_of_final_lt hlt
  · rw [← heq]
    exact .final

/-- The estimate does not fall below the last checkpoint. Above the final one
    that is backed by a header that speaks for it. -/
theorem Backed.last_le_tipEstimate {d : Detector} (hb : d.Backed) :
    d.last.nonce ≤ d.tipEstimate := by
  by_cases hlt : d.final.nonce < d.last.nonce
  · rcases hb.last_processed hlt with ⟨o, ho, _⟩
    rcases HeaderTable.mem_row.mp ho with ⟨hseen, hnonce⟩
    rw [← hnonce]
    exact le_tipEstimate (.seen o hseen)
  · exact UInt64.le_trans (UInt64.not_lt.mp hlt) (le_tipEstimate .final)

/-- What speaks for a tip is low if what it is made from is. -/
theorem low_of_indicates {d : Detector} (hfinal : Low d.final.nonce)
    (hproposed : Low d.lastProposed) (hseen : ∀ o ∈ d.table.observations, Low o.nonce)
    {n : UInt64} (hn : d.Indicates n) : Low n := by
  rcases hn with _ | hpos | ⟨o, ho⟩
  · exact hfinal
  · refine hproposed.of_lt ?_
    rw [UInt64.lt_iff_toNat_lt] at hpos ⊢
    have hone : (1 : UInt64) ≤ d.lastProposed := UInt64.le_iff_toNat_le.mpr hpos
    rw [UInt64.toNat_sub_of_le _ _ hone]
    exact Nat.sub_one_lt_of_lt hpos
  · exact hseen o ho

/-- The estimate does not fall below the last checkpoint, and it is made from
    low words. -/
structure Bracketed (d : Detector) : Prop where
  /-- The last checkpoint is not above the tip. -/
  last_le : d.last.nonce ≤ d.tip
  /-- The tip is low. -/
  tip_low : Low d.tip
  /-- So is the nonce of the last proposal. -/
  proposed_low : Low d.lastProposed
  /-- And so is the nonce of every header seen. -/
  seen_low : ∀ o ∈ d.table.observations, Low o.nonce

theorem bracketed_genesis : genesis.Bracketed where
  last_le := by decide
  tip_low := by decide
  proposed_low := by decide
  seen_low _ ho := absurd ho List.not_mem_nil

section Step

variable {settings : Settings} {d d' : Detector} {event : Event} {events : List Event}

/-- Taking in a header that has passed the gates estimates the tip anew. -/
theorem Bracketed.accept (ht : d.Bracketed) (hs : d.Sound) (hb : d.Backed) {env : Surroundings}
    {header : Header} {provenance : Provenance}
    (hgate : d.gateFault? settings env header provenance = none) (force : Bool)
    (hash : HeaderHash) (ancestors : List Ancestor) :
    (d.accept settings force header hash provenance ancestors).Bracketed := by
  have hlow : Low header.nonce := (final_lt_of_gate hs.history.final_low hgate).2
  have hproposed : Low (d.accept settings force header hash provenance ancestors).lastProposed := by
    rw [lastProposed_accept]
    split
    · exact hlow
    · exact ht.proposed_low
  have hseen : ∀ o ∈ (d.accept settings force header hash provenance ancestors).table.observations,
      Low o.nonce := by
    intro o ho
    rcases mem_table_takeIn (HeaderTable.mem_of_mem_keep (HeaderTable.mem_of_mem_keep ho)) with
      hold | hnonce | ⟨a, ha, hnonce⟩
    · exact ht.seen_low o hold
    · rw [hnonce]
      exact hlow
    · rw [hnonce]
      exact hlow.of_lt (mem_window ha).2.2
  have hfinal := (hs.accept hgate force hash ancestors).history.final_low
  -- The tip is the estimate, which nothing that it is made from depends on.
  have htip := tipEstimate_isGreatest (d.accept settings force header hash provenance ancestors)
  have hbacked := (hb.takeIn hs hgate force hash ancestors).tidy
  exact ⟨hbacked.last_le_tipEstimate, low_of_indicates hfinal hproposed hseen htip.1, hproposed,
    hseen⟩

/-- An operation that leaves the tip alone may drop checkpoints and headers, and
    may make final what is not above the last checkpoint. -/
theorem Bracketed.shrink (ht : d.Bracketed) (hs : d.Sound) (htip : d'.tip = d.tip)
    (hproposed : d'.lastProposed = d.lastProposed)
    (hentries : ∀ c ∈ d'.history.checkpoints, c ∈ d.history.checkpoints)
    (hfinal : d'.final.nonce ≤ d.last.nonce)
    (hseen : ∀ o ∈ d'.table.observations, o ∈ d.table.observations) : d'.Bracketed where
  last_le := by
    rw [htip]
    exact UInt64.le_trans (hs.history.last_le hentries hfinal) ht.last_le
  tip_low := by
    rw [htip]
    exact ht.tip_low
  proposed_low := by
    rw [hproposed]
    exact ht.proposed_low
  seen_low o ho := ht.seen_low o (hseen o ho)

/-- A retreat puts the tip down to the last checkpoint. -/
theorem Bracketed.retreat (ht : d.Bracketed) (hs : d.Sound) : d.retreat.Bracketed where
  last_le := UInt64.le_refl _
  tip_low := hs.history.last_low
  proposed_low := hs.history.last_low
  seen_low := ht.seen_low

/-- No operation makes the tip fall below the last checkpoint. -/
theorem Effect.bracketed {answer : Answer} (h : Effect settings d event answer d') (hs : d.Sound)
    (hb : d.Backed) (ht : d.Bracketed) : d'.Bracketed := by
  have hfinal := hs.history.final_le_last
  cases h with
  | accept _ o _ hash force _ _ hgate _ => exact ht.accept hs hb hgate force hash o.ancestors
  | idle _ _ _ => exact ht
  | rollBack nonce hash =>
      exact ht.shrink hs rfl rfl (fun c hc => (List.mem_filter.mp hc).1) hfinal
        fun o ho => HeaderTable.mem_of_mem_keep ho
  | scan _ =>
      exact ht.shrink hs rfl rfl (fun c hc => hc) hfinal fun o ho => HeaderTable.mem_of_mem_keep ho
  | retreat _ _ => exact ht.retreat hs
  | clearForced => exact ht.shrink hs rfl rfl (fun c hc => hc) hfinal fun o ho => ho
  | restart => exact bracketed_genesis
  | settleAll =>
      refine ht.shrink hs rfl rfl (fun c hc => ?_) ?_
        fun o ho => HeaderTable.mem_of_mem_keep (HeaderTable.mem_of_mem_keep ho)
      · have hraised := (List.mem_filter.mp hc).1
        rw [History.settleAll, History.checkpoints_raise] at hraised
        exact hraised
      · exact UInt64.le_of_eq (congrArg Checkpoint.nonce hs.history.final_settleAll)

/-- A run keeps the tip at the last checkpoint or above. -/
theorem Reaches.bracketed (h : Reaches settings d events d') (hs : d.Sound) (hb : d.Backed)
    (ht : d.Bracketed) : d'.Bracketed := by
  induction h with
  | refl _ => exact ht
  | step d event _ _ _ _ ih =>
      have heffect := effect_step settings d event
      exact ih (heffect.sound hs) (heffect.backed hs hb) (heffect.bracketed hs hb ht)

end Step

/-- In a reachable state the tip lies at the last checkpoint or above, and that
    at the final one or above. So the lead of the tip is not negative, read as
    signed words like the detector reads it. After every header that is
    accepted there, the tip is the highest of the final nonce, of the nonce
    that the last proposal builds on and of those of the table. -/
theorem tip_brackets_chain {settings : Settings} {events : List Event} {d : Detector}
    (h : Reaches settings genesis events d) :
    d.final.nonce ≤ d.last.nonce ∧ d.last.nonce ≤ d.tip ∧
      0 ≤ signed d.tip - signed d.last.nonce ∧
      ∀ env o, (d.step settings (.offer env o)).1 = .accepted →
        IsGreatest {n | (d.step settings (.offer env o)).2.Indicates n}
          (d.step settings (.offer env o)).2.tip := by
  have hs := h.sound sound_genesis
  have ht := h.bracketed sound_genesis backed_genesis bracketed_genesis
  refine ⟨hs.history.final_le_last, ht.last_le, ?_, ?_⟩
  · have hlast : Low d.last.nonce := hs.history.last_low
    have hle := UInt64.le_iff_toNat_le.mp ht.last_le
    rw [signed_of_low ht.tip_low, signed_of_low hlast]
    omega
  · intro env o haccepted
    rcases step_of_accepted haccepted with ⟨header, hash, force, _, _, _, _, hstep⟩
    rw [hstep]
    exact tipEstimate_isGreatest (d.accept settings force header hash o.provenance o.ancestors)

/-- A chain of two with a proposal further up and a header above that. Then the
    second block is rolled back. -/
def proposalAhead : List Event :=
  [Sample.offer 1 1 1 .processed [], Sample.offer 2 2 2 .processed [],
    Sample.offer 5 9 5 .proposed [], Sample.offer 6 9 6 .received [],
    .rollBack 2 (Sample.hash 2), .rollBack 6 (Sample.hash 6)]

/-- The tip leads by five, though nothing is left that speaks for it. With the
    next header it comes down to what the proposal builds on. -/
theorem tip_of_proposalAhead :
    ∃ d, Reaches .standard genesis proposalAhead d ∧ d.final.nonce = 1 ∧ d.last.nonce = 1 ∧
      d.tip = 6 ∧ 0 ≤ signed d.tip - signed d.last.nonce ∧
      (d.step .standard (Sample.offer 2 9 8 .processed [])).1 = .accepted ∧
      (d.step .standard (Sample.offer 2 9 8 .processed [])).2.tip = 4 ∧
      IsGreatest {n | (d.step .standard (Sample.offer 2 9 8 .processed [])).2.Indicates n}
        (d.step .standard (Sample.offer 2 9 8 .processed [])).2.tip := by
  have h : Reaches .standard genesis proposalAhead (genesis.run .standard proposalAhead) :=
    reaches_iff.mpr ⟨by decide, rfl⟩
  rcases tip_brackets_chain h with ⟨_, _, hlead, hgreatest⟩
  exact ⟨_, h, by decide, by decide, by decide, hlead, by decide, by decide,
    hgreatest _ _ (by decide)⟩

end Detector

end HeaderChain

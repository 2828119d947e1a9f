import HeaderChain.Proofs.History.Ascending
import HeaderChain.Proofs.Signed

/-!
# Sound Histories

What is true of the checkpoints of a chain whatever is done to them.

Between two operations every entry of the history lies at the final
checkpoint or above it, and the one that lies at it is the final checkpoint.
While a processed header is being taken in, the first of these does not
hold: finality has moved up and the entries below it are dropped only at the
end. So the invariant comes in two parts. `Ordered` is kept by every step on
the way, and `Sound` is what pruning makes of it again.

That the nonces are low is part of the invariant because the gates compare
nonces as signed numbers. Only above a low nonce do they let nothing pass
that lies below it.

Finality itself is followed by `Checkpoint.YieldsTo`: the final checkpoint
stays what it is, or one of a greater nonce takes its place. In particular
no other checkpoint of the same nonce ever does.

## Main definitions

* `Checkpoint.YieldsTo`: The final checkpoint stays or moves up.
* `History.Ordered`: What holds during an operation as well.
* `History.Sound`: What holds between operations.

## Theorems

* `History.Ordered.push`, `History.Ordered.settle`, `History.Ordered.certify`:
  The steps of taking in a header keep the history ordered.
* `History.Ordered.prune`: Pruning an ordered history makes it sound.
* `History.Sound.final_le_last`, `History.Sound.last_eq_final`: How the last
  checkpoint relates to the final one.
* `History.Sound.final_settleAll`: The last checkpoint can always be made
  final.
-/

namespace HeaderChain

/-- The final checkpoint stays what it is or moves up. -/
def Checkpoint.YieldsTo (old new : Checkpoint) : Prop :=
  new = old ∨ old.nonce < new.nonce

namespace Checkpoint.YieldsTo

theorem refl (c : Checkpoint) : c.YieldsTo c :=
  .inl rfl

theorem trans {a b c : Checkpoint} (hab : a.YieldsTo b) (hbc : b.YieldsTo c) : a.YieldsTo c := by
  rcases hab with rfl | hab
  · exact hbc
  · rcases hbc with rfl | hbc
    · exact .inr hab
    · exact .inr (UInt64.lt_trans hab hbc)

/-- Finality does not move down. -/
theorem nonce_le {a b : Checkpoint} (h : a.YieldsTo b) : a.nonce ≤ b.nonce := by
  rcases h with rfl | h
  · exact UInt64.le_refl _
  · exact UInt64.le_of_lt h

/-- What is final at a nonce stays final at it. -/
theorem eq_of_nonce_eq {a b : Checkpoint} (h : a.YieldsTo b) (hab : b.nonce = a.nonce) :
    b = a := by
  rcases h with rfl | h
  · rfl
  · exact absurd hab.symm (UInt64.ne_of_lt h)

end Checkpoint.YieldsTo

namespace History

/-- The invariant of a history while a header is being taken in. -/
structure Ordered (h : History) : Prop where
  /-- The nonces of the entries strictly ascend. -/
  ascending : Ascending h.checkpoints
  /-- The entry at the final nonce is the final checkpoint. -/
  agrees : ∀ c ∈ h.checkpoints, c.nonce = h.final.nonce → c = h.final
  /-- The nonces of the entries are low. -/
  low : ∀ c ∈ h.checkpoints, Low c.nonce
  /-- The final nonce is low. -/
  final_low : Low h.final.nonce

/-- The invariant of a history between two operations. -/
structure Sound (h : History) : Prop extends Ordered h where
  /-- No entry lies below the final checkpoint. -/
  above : ∀ c ∈ h.checkpoints, h.final.nonce ≤ c.nonce

/-- The history of a chain that has only its first block is sound. -/
theorem sound_genesis : genesis.Sound where
  ascending := List.pairwise_singleton _ _
  agrees c hc _ := List.mem_singleton.mp hc
  low c hc := by
    rw [List.mem_singleton.mp hc]
    decide
  final_low := by decide
  above c hc := by
    rw [List.mem_singleton.mp hc]
    decide

@[simp]
theorem checkpoints_raise (h : History) (c : Checkpoint) :
    (h.raise c).checkpoints = h.checkpoints := by
  unfold raise
  split <;> rfl

/-- A checkpoint above the final one becomes final. -/
theorem final_raise {h : History} {c : Checkpoint} (hc : h.final.nonce < c.nonce) :
    (h.raise c).final = c := by
  rw [raise, if_pos hc]

/-- Any other changes nothing. -/
theorem raise_of_le {h : History} {c : Checkpoint} (hc : c.nonce ≤ h.final.nonce) :
    h.raise c = h := by
  rw [raise, if_neg (UInt64.not_lt.mpr hc)]

theorem yieldsTo_raise (h : History) (c : Checkpoint) : h.final.YieldsTo (h.raise c).final := by
  by_cases hc : h.final.nonce < c.nonce
  · rw [final_raise hc]
    exact .inr hc
  · rw [raise_of_le (UInt64.not_lt.mp hc)]
    exact .refl _

@[simp]
theorem checkpoints_settle (h : History) (depth : UInt64) :
    (h.settle depth).checkpoints = h.checkpoints := by
  unfold settle
  split
  · exact checkpoints_raise h _
  · rfl

theorem yieldsTo_settle (h : History) (depth : UInt64) :
    h.final.YieldsTo (h.settle depth).final := by
  unfold settle
  split
  · exact yieldsTo_raise h _
  · exact .refl _

theorem yieldsTo_certify (h : History) (c : Checkpoint) :
    h.final.YieldsTo (h.certify c).final := by
  unfold certify
  split
  · exact yieldsTo_raise { h with checkpoints := place c h.checkpoints } c
  · exact .refl _

theorem yieldsTo_settleAll (h : History) : h.final.YieldsTo h.settleAll.final :=
  yieldsTo_raise h h.last

theorem covers_iff {h : History} {nonce : UInt64} :
    h.covers nonce ↔ h.final.nonce < nonce ∧ nonce ≤ h.last.nonce := by
  simp only [covers, Bool.and_eq_true, decide_eq_true_eq]

namespace Ordered

variable {h : History} {c : Checkpoint}

theorem filter (ho : h.Ordered) (test : Checkpoint → Bool) :
    { h with checkpoints := h.checkpoints.filter test }.Ordered where
  ascending := ho.ascending.filter test
  agrees e he := ho.agrees e (List.mem_filter.mp he).1
  low e he := ho.low e (List.mem_filter.mp he).1
  final_low := ho.final_low

/-- Any of the entries may be made final. -/
theorem raise (ho : h.Ordered) (hc : c ∈ h.checkpoints) : (h.raise c).Ordered := by
  by_cases hlt : h.final.nonce < c.nonce
  · exact
      { ascending := by
          rw [checkpoints_raise]
          exact ho.ascending
        agrees := by
          -- The entry made final is the only one of its nonce.
          intro e he hnonce
          rw [checkpoints_raise] at he
          rw [final_raise hlt] at hnonce ⊢
          exact ho.ascending.eq_of_nonce_eq he hc hnonce
        low := by
          rw [checkpoints_raise]
          exact ho.low
        final_low := by
          rw [final_raise hlt]
          exact ho.low c hc }
  · rw [raise_of_le (UInt64.not_lt.mp hlt)]
    exact ho

/-- A header above the final checkpoint may be pushed. -/
theorem push (ho : h.Ordered) (hlt : h.final.nonce < c.nonce) (hlow : Low c.nonce) :
    (h.push c).Ordered where
  ascending := by
    unfold Ascending History.push
    rw [List.pairwise_append]
    refine ⟨ho.ascending.filter _, List.pairwise_singleton _ _, fun a ha b hb => ?_⟩
    rw [List.mem_singleton.mp hb]
    exact of_decide_eq_true (List.mem_filter.mp ha).2
  agrees := by
    -- The header's own checkpoint lies above, so only old ones are concerned.
    intro e he hnonce
    rcases List.mem_append.mp he with hold | hnew
    · exact ho.agrees e (List.mem_filter.mp hold).1 hnonce
    · rw [List.mem_singleton.mp hnew] at hnonce
      exact absurd hnonce.symm (UInt64.ne_of_lt hlt)
  low := by
    intro e he
    rcases List.mem_append.mp he with hold | hnew
    · exact ho.low e (List.mem_filter.mp hold).1
    · rw [List.mem_singleton.mp hnew]
      exact hlow
  final_low := ho.final_low

/-- The depth rule keeps a history ordered. -/
theorem settle (ho : h.Ordered) (depth : UInt64) : (h.settle depth).Ordered := by
  unfold History.settle
  split
  · next e he => exact ho.raise (List.mem_reverse.mp (List.mem_of_find?_eq_some he))
  · exact ho

/-- A checkpoint above the final one may be put into its place. -/
theorem place (ho : h.Ordered) (hlt : h.final.nonce < c.nonce) (hlow : Low c.nonce) :
    { h with checkpoints := History.place c h.checkpoints }.Ordered where
  ascending := ho.ascending.place c
  agrees := by
    intro e he hnonce
    rcases ho.ascending.mem_place.mp he with rfl | hold
    · exact absurd hnonce.symm (UInt64.ne_of_lt hlt)
    · exact ho.agrees e hold.1 hnonce
  low := by
    intro e he
    rcases ho.ascending.mem_place.mp he with rfl | hold
    · exact hlow
    · exact ho.low e hold.1
  final_low := ho.final_low

/-- Certified ancestors keep a history ordered. -/
theorem certify (ho : h.Ordered) (hlow : Low c.nonce) : (h.certify c).Ordered := by
  unfold History.certify
  split
  · next hcovers =>
    exact (ho.place (covers_iff.mp hcovers).1 hlow).raise (ho.ascending.mem_place.mpr (.inl rfl))
  · exact ho

/-- Pruning an ordered history makes it sound. -/
theorem prune (ho : h.Ordered) : h.prune.Sound where
  toOrdered := ho.filter _
  above _ he := of_decide_eq_true (List.mem_filter.mp he).2

/-- Making the last checkpoint final keeps a history ordered. -/
theorem settleAll (ho : h.Ordered) : h.settleAll.Ordered := by
  unfold History.settleAll
  rcases last_cases h with hmem | ⟨_, hfinal⟩
  · exact ho.raise hmem
  · -- Without entries the last checkpoint is final already.
    rw [hfinal, raise_of_le (UInt64.le_refl _)]
    exact ho

end Ordered

namespace Sound

variable {h : History}

/-- Rolling back a nonce keeps a history sound. -/
theorem forget (hs : h.Sound) (nonce : UInt64) : (h.forget nonce).Sound where
  toOrdered := hs.toOrdered.filter _
  above e he := hs.above e (List.mem_filter.mp he).1

/-- Pruning has nothing to drop. -/
theorem prune_eq (hs : h.Sound) : h.prune = h := by
  unfold prune
  rw [List.filter_eq_self.mpr fun c hc => decide_eq_true (hs.above c hc)]

/-- The last checkpoint does not lie below the final one. -/
theorem final_le_last (hs : h.Sound) : h.final.nonce ≤ h.last.nonce := by
  rcases last_cases h with hmem | ⟨_, hfinal⟩
  · exact hs.above _ hmem
  · rw [hfinal]
    exact UInt64.le_refl _

theorem last_low (hs : h.Sound) : Low h.last.nonce := by
  rcases last_cases h with hmem | ⟨_, hfinal⟩
  · exact hs.low _ hmem
  · rw [hfinal]
    exact hs.final_low

/-- The last checkpoint does not move up where no entry is added and nothing
    above it becomes final. -/
theorem last_le (hs : h.Sound) {h' : History} (hsub : ∀ c ∈ h'.checkpoints, c ∈ h.checkpoints)
    (hfinal : h'.final.nonce ≤ h.last.nonce) : h'.last.nonce ≤ h.last.nonce := by
  rcases last_cases h' with hmem | ⟨_, hlast⟩
  · exact hs.ascending.le_last (hsub _ hmem)
  · rw [hlast]
    exact hfinal

/-- If the last checkpoint has the final nonce, it is the final one. -/
theorem last_eq_final (hs : h.Sound) (hnonce : h.last.nonce = h.final.nonce) :
    h.last = h.final := by
  rcases last_cases h with hmem | ⟨_, hfinal⟩
  · exact hs.agrees _ hmem hnonce
  · exact hfinal

/-- The last checkpoint can always be made final. -/
theorem final_settleAll (hs : h.Sound) : h.settleAll.final = h.last := by
  unfold settleAll
  rcases UInt64.lt_or_eq_of_le hs.final_le_last with hlt | heq
  · exact final_raise hlt
  · -- Nothing is raised, but the two are the same checkpoint.
    rw [raise_of_le (UInt64.le_of_eq heq.symm), hs.last_eq_final heq.symm]

end Sound

end History

end HeaderChain

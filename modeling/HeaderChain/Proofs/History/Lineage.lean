import HeaderChain.Proofs.History.Rounds

/-!
# Following a Lineage

The checkpoints of a node that processes one block on top of the other.

A history forgets: what lies below the final checkpoint is dropped, and what the
depth rule does next is decided by what is left. Against the whole list of
blocks that were processed, the lineage, it can still be said what a history
holds. It holds the part of the lineage from the final checkpoint on, and the
final checkpoint is the highest that lies deep enough, or the first of all as
long as none does.

That nothing is missing from the part that is kept is what makes the depth rule
pick the right checkpoint the next time, because that lies above the one that it
picked the last time.

## Main definitions

* `History.Follows`: A history holds what is left of a lineage.

## Theorems

* `History.Follows.mem_prune_settle_push`: What is left after the next block.
* `History.Follows.push`: A history follows its lineage to the next block.
-/

namespace HeaderChain

namespace History

/-- A history holds of a lineage what is not below the final checkpoint, and
    that is the highest one that lies deep enough. -/
structure Follows (h : History) (depth : UInt64) (lineage : List Checkpoint) : Prop where
  /-- The entries are the part of the lineage from the final checkpoint on. -/
  mem_iff : ∀ c, c ∈ h.checkpoints ↔ c ∈ lineage ∧ h.final.nonce ≤ c.nonce
  /-- The last checkpoint is the last of the lineage. -/
  last : lineage.getLast? = some h.last
  /-- The final checkpoint belongs to the lineage. -/
  final_mem : h.final ∈ lineage
  /-- It lies deep enough, unless it is the first of all. -/
  final_deep : h.final = .genesis ∨ h.final.nonce.toNat + depth.toNat ≤ h.last.nonce.toNat
  /-- Nothing above it lies deep enough. -/
  final_highest : ∀ c ∈ lineage, c.nonce.toNat + depth.toNat ≤ h.last.nonce.toNat →
    c.nonce ≤ h.final.nonce

theorem follows_genesis (depth : UInt64) : genesis.Follows depth [.genesis] where
  mem_iff c := by
    constructor
    · intro hc
      refine ⟨hc, ?_⟩
      rw [List.mem_singleton.mp hc]
      exact UInt64.le_refl _
    · exact fun hc => hc.1
  last := rfl
  final_mem := List.mem_cons_self
  final_deep := .inl rfl
  final_highest c hc _ := by
    rw [List.mem_singleton.mp hc]
    exact UInt64.le_refl _

namespace Follows

section Push

variable {h : History} {depth : UInt64} {lineage : List Checkpoint} {own : Checkpoint}
  (hf : h.Follows depth lineage) (hbelow : ∀ c ∈ lineage, c.nonce < own.nonce)

include hf hbelow

theorem final_lt : h.final.nonce < own.nonce :=
  hbelow _ hf.final_mem

/-- Nothing gives way to a block on top of the lineage. -/
theorem mem_push (c : Checkpoint) : c ∈ (h.push own).checkpoints ↔
    c ∈ lineage ++ [own] ∧ h.final.nonce ≤ c.nonce := by
  unfold History.push
  rw [List.mem_append, List.mem_append, List.mem_singleton, List.mem_filter, hf.mem_iff,
    decide_eq_true_eq]
  constructor
  · rintro (⟨hc, _⟩ | rfl)
    · exact ⟨.inl hc.1, hc.2⟩
    · exact ⟨.inr rfl, UInt64.le_of_lt (hf.final_lt hbelow)⟩
  · rintro ⟨hc | rfl, hle⟩
    · exact .inl ⟨⟨hc, hle⟩, hbelow c hc⟩
    · exact .inr rfl

/-- Pruning drops what lies below the new final checkpoint. -/
theorem mem_prune_settle_push (c : Checkpoint) :
    c ∈ ((h.push own).settle depth).prune.checkpoints ↔
      c ∈ lineage ++ [own] ∧ ((h.push own).settle depth).final.nonce ≤ c.nonce := by
  have hup : h.final.nonce ≤ ((h.push own).settle depth).final.nonce :=
    (yieldsTo_settle (h.push own) depth).nonce_le
  unfold prune
  rw [List.mem_filter, checkpoints_settle, hf.mem_push hbelow, decide_eq_true_eq]
  exact ⟨fun hc => ⟨hc.1.1, hc.2⟩, fun hc => ⟨⟨hc.1, UInt64.le_trans hup hc.2⟩, hc.2⟩⟩

/-- A history follows its lineage to the next block. -/
theorem push (hs : h.Sound) (hlow : Low own.nonce) :
    ((h.push own).settle depth).prune.Follows depth (lineage ++ [own]) := by
  have hpush := hs.toOrdered.push (hf.final_lt hbelow) hlow
  have hlow' : Low (h.push own).last.nonce := by
    rw [last_push]
    exact hlow
  have hup : h.final.nonce ≤ ((h.push own).settle depth).final.nonce :=
    (yieldsTo_settle (h.push own) depth).nonce_le
  have hlast : ((h.push own).settle depth).prune.last = own :=
    hs.last_prune_settle_push (hf.final_lt hbelow) hlow depth
  have hcases := hpush.final_settle_cases hlow' depth
  rw [last_push] at hcases
  refine ⟨hf.mem_prune_settle_push hbelow, ?_, ?_, ?_, ?_⟩
  · rw [List.getLast?_concat, hlast]
  · change ((h.push own).settle depth).final ∈ lineage ++ [own]
    rcases hcases with hsame | ⟨hentry, _⟩
    · rw [hsame]
      exact List.mem_append_left _ hf.final_mem
    · exact ((hf.mem_push hbelow _).mp hentry).1
  · rw [hlast]
    rcases hcases with hsame | ⟨_, hdeep⟩
    · -- What lay deep enough before does so all the more.
      have hlt := UInt64.lt_iff_toNat_lt.mp (hbelow _ (List.mem_of_getLast? hf.last))
      have hold : ((h.push own).settle depth).prune.final = h.final := hsame
      rw [hold]
      exact hf.final_deep.imp_right fun hdeep => Nat.le_of_lt (Nat.lt_of_le_of_lt hdeep hlt)
    · exact .inr hdeep
  · intro c hc hdeep
    rw [hlast] at hdeep
    by_cases hle : h.final.nonce ≤ c.nonce
    · refine hpush.le_final_settle hlow' ((hf.mem_push hbelow c).mpr ⟨hc, hle⟩) ?_
      rw [last_push]
      exact hdeep
    · exact UInt64.le_trans (UInt64.le_of_lt (UInt64.not_le.mp hle)) hup

end Push

end Follows

end History

end HeaderChain

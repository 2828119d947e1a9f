import HeaderChain.Proofs.History.Rounds

/-!
# Committing a Header Again

What a commit leaves above the final checkpoint, and what a second commit of the
same header finds to do.

The ancestors of a commit lie below the header and are final at once. So above the
checkpoint that is final afterwards they are nothing but a memory: the entries there are
those that the header was pushed on top of, and its own. Every ancestor has been taken in
or passed over by then, and none of them lies above the final checkpoint.

This is what makes a second commit of the header idle. It pushes the header in its own
place, on top of what the first left below it. The depth rule has seen these entries
before and made the highest that lies deep enough final, if an ancestor has not gone
beyond it. And no ancestor is left to be taken in.

## Theorems

* `Ascending.filter_append_last`: A history is what lies below its last entry, and
  that entry.
* `History.Ordered.last_certifyAll`: Ancestors below the last entry leave it alone.
* `History.Ordered.le_final_certifyAll`: None of them is left above finality.
* `History.Ordered.mem_commit_iff_of_final_lt`: The entries above the final checkpoint.
* `History.Ordered.last_commit`, `History.final_commit_le`: The header ends up last, and
  finality does not go beyond it.
* `History.Ordered.commit_again`: A second commit of the same header changes nothing.
-/

namespace HeaderChain

/-- A list that ascends is what lies below its last entry, and that entry. -/
theorem Ascending.filter_append_last {cs : List Checkpoint} (h : Ascending cs) {c : Checkpoint}
    (hc : cs.getLast? = some c) : cs.filter (·.nonce < c.nonce) ++ [c] = cs := by
  rcases List.getLast?_eq_some_iff.mp hc with ⟨front, rfl⟩
  have hbelow : ∀ e ∈ front, e.nonce < c.nonce := fun e he =>
    (List.pairwise_append.mp h).2.2 e he c List.mem_cons_self
  have hself : [c].filter (·.nonce < c.nonce) = [] :=
    List.filter_cons_of_neg fun hlt => UInt64.lt_irrefl _ (of_decide_eq_true hlt)
  rw [List.filter_append, hself, List.append_nil,
    List.filter_eq_self.mpr fun e he => decide_eq_true (hbelow e he)]

namespace History

variable {h : History} {depth nonce : UInt64} {own c : Checkpoint} {as : List Ancestor}
  {a : Ancestor}

/-- Pushing the last entry again changes nothing. -/
theorem push_last (hascending : Ascending h.checkpoints) (hmem : h.last ∈ h.checkpoints) :
    h.push h.last = h := by
  have hlast : h.checkpoints.getLast? = some h.last := by
    unfold last
    cases hgetlast : h.checkpoints.getLast? with
    | none =>
        rw [List.getLast?_eq_none_iff.mp hgetlast] at hmem
        exact absurd hmem List.not_mem_nil
    | some l => rfl
  rw [push, hascending.filter_append_last hlast]

/-- Ancestors that do not lie above a nonce do not move finality beyond it. -/
theorem final_certifyAll_le (hfinal : h.final.nonce ≤ nonce) (has : ∀ a ∈ as, a.nonce ≤ nonce) :
    (h.certifyAll as).final.nonce ≤ nonce := by
  induction as generalizing h with
  | nil => exact hfinal
  | cons b rest ih =>
      rw [certifyAll_cons]
      refine ih ?_ fun a ha => has a (List.mem_cons_of_mem b ha)
      by_cases hcovers : h.covers b.checkpoint.nonce
      · rw [final_certify hcovers]
        exact has b List.mem_cons_self
      · rw [certify_of_not_covers hcovers]
        exact hfinal

/-- A commit does not move finality beyond the header. -/
theorem final_commit_le (hown : h.final.nonce < own.nonce) (has : ∀ a ∈ as, a.nonce < own.nonce)
    (depth : UInt64) : (h.commit depth own as).final.nonce ≤ own.nonce :=
  final_certifyAll_le (final_settle_push_le hown depth) fun a ha => UInt64.le_of_lt (has a ha)

namespace Ordered

section CertifyAll

variable (ho : h.Ordered) (hmem : h.last ∈ h.checkpoints)
  (has : ∀ a ∈ as, a.nonce < h.last.nonce)

include ho hmem has

/-- Ancestors below the last entry leave it alone. -/
theorem last_certifyAll :
    h.last ∈ (h.certifyAll as).checkpoints ∧ (h.certifyAll as).last = h.last := by
  induction as generalizing h with
  | nil => exact ⟨hmem, rfl⟩
  | cons b rest ih =>
      have hb : b.checkpoint.nonce < h.last.nonce := has b List.mem_cons_self
      rcases ho.last_certify hmem hb with ⟨hmem', hlast⟩
      have hrest := ih (ho.certify ((ho.low _ hmem).of_lt hb)) (hlast.symm ▸ hmem')
        (hlast.symm ▸ fun a ha => has a (List.mem_cons_of_mem b ha))
      rw [hlast] at hrest
      exact hrest

/-- None of them is left above the final checkpoint. -/
theorem le_final_certifyAll (ha : a ∈ as) : a.nonce ≤ (h.certifyAll as).final.nonce := by
  induction as generalizing h with
  | nil => exact absurd ha List.not_mem_nil
  | cons b rest ih =>
      have hb : b.checkpoint.nonce < h.last.nonce := has b List.mem_cons_self
      rcases ho.last_certify hmem hb with ⟨hmem', hlast⟩
      rcases List.mem_cons.mp ha with rfl | ha
      · -- It becomes final, or it was passed over because finality is above it.
        refine UInt64.le_trans ?_ (yieldsTo_certifyAll rest (h.certify a.checkpoint)).nonce_le
        by_cases hcovers : h.covers a.checkpoint.nonce
        · rw [final_certify hcovers]
          exact UInt64.le_refl _
        · rw [certify_of_not_covers hcovers]
          refine UInt64.not_lt.mp fun hlt => hcovers (covers_iff.mpr ⟨hlt, UInt64.le_of_lt hb⟩)
      · exact ih (ho.certify ((ho.low _ hmem).of_lt hb)) (hlast.symm ▸ hmem')
          (hlast.symm ▸ fun e he => has e (List.mem_cons_of_mem b he)) ha

end CertifyAll

/-- Ancestors displace no entry above the final checkpoint that they lead to. -/
theorem mem_certifyAll_iff_of_final_lt (ho : h.Ordered) (hlow : ∀ a ∈ as, Low a.nonce)
    (hlt : (h.certifyAll as).final.nonce < c.nonce) :
    c ∈ (h.certifyAll as).checkpoints ↔ c ∈ h.checkpoints := by
  refine ⟨fun hc => ho.mem_certifyAll_of_final_lt hlow hc hlt, fun hc => ?_⟩
  induction as generalizing h with
  | nil => exact hc
  | cons b rest ih =>
      have hb := hlow b List.mem_cons_self
      rw [certifyAll_cons] at hlt ⊢
      refine ih (ho.certify hb) (fun e he => hlow e (List.mem_cons_of_mem b he)) hlt ?_
      by_cases hcovers : h.covers b.checkpoint.nonce
      · -- The entry displaced is at a nonce that is final from then on.
        have hle := (yieldsTo_certifyAll rest (h.certify b.checkpoint)).nonce_le
        rw [final_certify hcovers] at hle
        exact (ho.mem_certify_of_covers hcovers).mpr
          (.inr ⟨hc, (UInt64.ne_of_lt (UInt64.lt_of_le_of_lt hle hlt)).symm⟩)
      · rw [certify_of_not_covers hcovers]
        exact hc

section Commit

variable (ho : h.Ordered) (hown : h.final.nonce < own.nonce) (hlow : Low own.nonce)
  (has : ∀ a ∈ as, a.nonce < own.nonce)

include ho hown hlow has

/-- The header ends up last. -/
theorem last_commit (depth : UInt64) : own ∈ (h.commit depth own as).checkpoints ∧
    (h.commit depth own as).last = own := by
  have hlast := last_settle_push h depth own
  have hmem : own ∈ ((h.push own).settle depth).checkpoints := by
    rw [checkpoints_settle]
    exact List.mem_append_right _ List.mem_cons_self
  have hcertified := ((ho.push hown hlow).settle depth).last_certifyAll
    (hlast.symm ▸ hmem) (hlast.symm ▸ has)
  rw [hlast] at hcertified
  exact hcertified

/-- No ancestor is left above the final checkpoint. -/
theorem le_final_commit (ha : a ∈ as) (depth : UInt64) :
    a.nonce ≤ (h.commit depth own as).final.nonce := by
  have hlast := last_settle_push h depth own
  have hmem : own ∈ ((h.push own).settle depth).checkpoints := by
    rw [checkpoints_settle]
    exact List.mem_append_right _ List.mem_cons_self
  exact ((ho.push hown hlow).settle depth).le_final_certifyAll (hlast.symm ▸ hmem)
    (hlast.symm ▸ has) ha

/-- Above the final checkpoint the entries are those that the header was pushed on top
    of, and its own. -/
theorem mem_commit_iff_of_final_lt (hlt : (h.commit depth own as).final.nonce < c.nonce) :
    c ∈ (h.commit depth own as).checkpoints ↔
      (c ∈ h.checkpoints ∧ c.nonce < own.nonce) ∨ c = own := by
  unfold History.commit at hlt ⊢
  rw [((ho.push hown hlow).settle depth).mem_certifyAll_iff_of_final_lt
    (fun a ha => hlow.of_lt (has a ha)) hlt, checkpoints_settle, History.push, List.mem_append,
    List.mem_filter, decide_eq_true_eq, List.mem_singleton]

/-- Nothing that lies deep enough below the header is left above the final
    checkpoint. -/
theorem le_final_commit_of_deep (hc : c ∈ (h.commit depth own as).checkpoints)
    (hdeep : c.nonce.toNat + depth.toNat ≤ own.nonce.toNat) :
    c.nonce ≤ (h.commit depth own as).final.nonce := by
  have hpush := ho.push hown hlow
  have hlast := last_push h own
  rcases (hpush.settle depth).mem_certifyAll (fun a ha => hlow.of_lt (has a ha)) hc with
    hold | ⟨a, ha, rfl⟩
  · rw [checkpoints_settle] at hold
    exact UInt64.le_trans
      (hpush.le_final_settle (hlast.symm ▸ hlow) hold (hlast.symm ▸ hdeep))
      (yieldsTo_certifyAll as _).nonce_le
  · exact ho.le_final_commit hown hlow has ha depth

/-- A second commit of the same header changes nothing. -/
theorem commit_again : (h.commit depth own as).prune.commit depth own []
    = (h.commit depth own as).prune := by
  have hs : (h.commit depth own as).prune.Sound := (ho.commit hown hlow has).prune
  rcases ho.last_commit hown hlow has depth with ⟨hmem, hlast⟩
  have hmem' : own ∈ (h.commit depth own as).prune.checkpoints :=
    List.mem_filter.mpr ⟨hmem, decide_eq_true (final_commit_le hown has depth)⟩
  have hlast' : (h.commit depth own as).prune.last = own := by
    refine last_eq_of_highest hs.ascending hmem' fun c hc => ?_
    have hle := (ho.commit hown hlow has).ascending.le_last (List.mem_filter.mp hc).1
    rw [hlast] at hle
    exact hle
  have hpush : (h.commit depth own as).prune.push own = (h.commit depth own as).prune := by
    have hself := push_last hs.ascending (hlast'.symm ▸ hmem')
    rw [hlast'] at hself
    exact hself
  -- What the depth rule picks has been made final before, or finality is above it.
  have hsettle : (h.commit depth own as).prune.settle depth = (h.commit depth own as).prune := by
    rcases hs.settle_cases (hlast'.symm ▸ hlow) depth with hsame | ⟨c, hc, hraise⟩
    · exact hsame
    · have hdeep := hc.deep
      rw [hlast'] at hdeep
      rw [hraise]
      exact raise_of_le
        (ho.le_final_commit_of_deep hown hlow has (List.mem_filter.mp hc.mem).1 hdeep)
  rw [History.commit, hpush, hsettle]
  rfl

end Commit

end Ordered

end History

end HeaderChain

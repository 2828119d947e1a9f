import HeaderChain.Proofs.History.Recommit
import Mathlib.Data.List.Nodup

/-!
# Ancestors in Any Order

Why it does not matter in which order the ancestors of a header are listed.

Each ancestor that is taken in moves finality up, and one that comes after a higher one is
ignored. So two orders of a list may lead to histories that differ. They differ only in
entries that finality has passed, though. Whatever the order, the highest ancestor is final
in the end unless the depth rule was there first, and nothing above it has been touched. What
is left to differ is dropped when the history is pruned.

That the nonces of the list are distinct is needed for one thing only. Of two ancestors of
the highest nonce the first one listed would become final, and the other one ignored.

## Theorems

* `Ascending.ext`: Ascending lists with the same members are the same.
* `History.Ordered.certifyAll_cases`: Ancestors do nothing, or one of them is final.
* `History.Ordered.final_certifyAll_perm`: What is final does not depend on their order.
* `History.Ordered.prune_commit_perm`: Nor does anything else once the history is pruned.
-/

namespace HeaderChain

theorem Ascending.ext {cs ds : List Checkpoint} (hc : Ascending cs) (hd : Ascending ds)
    (h : ∀ c, c ∈ cs ↔ c ∈ ds) : cs = ds := by
  have hnodup : ∀ es, Ascending es → es.Nodup := fun es he =>
    List.Pairwise.imp (fun hab heq => UInt64.ne_of_lt hab (congrArg Checkpoint.nonce heq)) he
  have hperm := (List.perm_ext_iff_of_nodup (hnodup cs hc) (hnodup ds hd)).mpr h
  unfold Ascending at hc hd
  exact hperm.eq_of_pairwise (fun a b _ _ hab hba => absurd hba (UInt64.lt_asymm hab)) hc hd

namespace History

namespace Ordered

variable {h : History} {depth : UInt64} {own c : Checkpoint} {as bs : List Ancestor}

/-- Ancestors do nothing, or one of them is final and the entry of its nonce. -/
theorem certifyAll_cases (ho : h.Ordered) (hlow : ∀ a ∈ as, Low a.nonce) :
    h.certifyAll as = h ∨ ∃ a ∈ as, (h.certifyAll as).final = a.checkpoint ∧
      a.checkpoint ∈ (h.certifyAll as).checkpoints := by
  induction as generalizing h with
  | nil => exact .inl rfl
  | cons b rest ih =>
      have hb : Low b.checkpoint.nonce := hlow b List.mem_cons_self
      rw [certifyAll_cons]
      rcases ih (ho.certify hb) (fun e he => hlow e (List.mem_cons_of_mem b he)) with
        hidle | ⟨a, ha, hfinal, hmem⟩
      · -- If the rest does nothing, it is up to the first one.
        rw [hidle]
        by_cases hcovers : h.covers b.checkpoint.nonce
        · exact .inr ⟨b, List.mem_cons_self, final_certify hcovers,
            (ho.mem_certify_of_covers hcovers).mpr (.inl rfl)⟩
        · exact .inl (certify_of_not_covers hcovers)
      · exact .inr ⟨a, List.mem_cons_of_mem b ha, hfinal, hmem⟩

section CertifyAll

variable (ho : h.Ordered) (hmem : h.last ∈ h.checkpoints)
  (has : ∀ a ∈ as, a.nonce < h.last.nonce) (hperm : as.Perm bs)

include ho hmem has hperm

theorem certifyAll_eq_self_perm (hidle : h.certifyAll as = h) : h.certifyAll bs = h := by
  refine certifyAll_of_le fun b hb => ?_
  have hle := ho.le_final_certifyAll hmem has (hperm.mem_iff.mpr hb)
  rw [hidle] at hle
  exact hle

variable (hdistinct : (as.map Ancestor.nonce).Nodup)

include hdistinct

/-- If they do something, the same one is final in any order, and the entry of its nonce. -/
theorem certifyAll_perm_cases :
    (h.certifyAll as = h ∧ h.certifyAll bs = h) ∨
      ∃ c, (h.certifyAll as).final = c ∧ c ∈ (h.certifyAll as).checkpoints ∧
        (h.certifyAll bs).final = c ∧ c ∈ (h.certifyAll bs).checkpoints := by
  have hbs : ∀ b ∈ bs, b.nonce < h.last.nonce := fun b hb => has b (hperm.mem_iff.mpr hb)
  have hlow := ho.low _ hmem
  rcases ho.certifyAll_cases (fun a ha => hlow.of_lt (has a ha)) with
    hidle | ⟨a, ha, hfinal, hentry⟩
  · exact .inl ⟨hidle, ho.certifyAll_eq_self_perm hmem has hperm hidle⟩
  · rcases ho.certifyAll_cases (fun b hb => hlow.of_lt (hbs b hb)) with
      hidle | ⟨b, hb, hfinal', hentry'⟩
    · exact .inl ⟨ho.certifyAll_eq_self_perm hmem hbs hperm.symm hidle, hidle⟩
    · -- Neither of the two lies above the other, and no two are of one nonce.
      have hba := ho.le_final_certifyAll hmem has (hperm.mem_iff.mpr hb)
      have hab := ho.le_final_certifyAll hmem hbs (hperm.mem_iff.mp ha)
      rw [hfinal] at hba
      rw [hfinal'] at hab
      have hsame : a = b := List.inj_on_of_nodup_map hdistinct ha (hperm.mem_iff.mpr hb)
        (UInt64.le_antisymm hab hba)
      rw [← hsame] at hfinal' hentry'
      exact .inr ⟨a.checkpoint, hfinal, hentry, hfinal', hentry'⟩

theorem final_certifyAll_perm : (h.certifyAll as).final = (h.certifyAll bs).final := by
  rcases ho.certifyAll_perm_cases hmem has hperm hdistinct with
    ⟨has', hbs'⟩ | ⟨c, hfinal, _, hfinal', _⟩
  · rw [has', hbs']
  · rw [hfinal, hfinal']

/-- Nor do the entries from there on. -/
theorem mem_certifyAll_perm (hle : (h.certifyAll as).final.nonce ≤ c.nonce) :
    c ∈ (h.certifyAll as).checkpoints ↔ c ∈ (h.certifyAll bs).checkpoints := by
  have hlow := ho.low _ hmem
  have has' : ∀ a ∈ as, Low a.nonce := fun a ha => hlow.of_lt (has a ha)
  have hbs' : ∀ b ∈ bs, Low b.nonce := fun b hb => has' b (hperm.mem_iff.mpr hb)
  rcases ho.certifyAll_perm_cases hmem has hperm hdistinct with
    ⟨hidle, hidle'⟩ | ⟨e, hfinal, hentry, hfinal', hentry'⟩
  · rw [hidle, hidle']
  · rw [hfinal] at hle
    rcases UInt64.lt_or_eq_of_le hle with hlt | heq
    · rw [ho.mem_certifyAll_iff_of_final_lt has' (hfinal ▸ hlt),
        ho.mem_certifyAll_iff_of_final_lt hbs' (hfinal' ▸ hlt)]
    · -- At the final nonce the only entry is the final checkpoint itself.
      constructor
      · intro hc
        rw [(ho.certifyAll has').ascending.eq_of_nonce_eq hc hentry heq.symm]
        exact hentry'
      · intro hc
        rw [(ho.certifyAll hbs').ascending.eq_of_nonce_eq hc hentry' heq.symm]
        exact hentry

theorem prune_certifyAll_perm : (h.certifyAll as).prune = (h.certifyAll bs).prune := by
  have hlow := ho.low _ hmem
  have ho₁ := ho.certifyAll fun a ha => hlow.of_lt (has a ha)
  have ho₂ := ho.certifyAll fun b hb => hlow.of_lt (has b (hperm.mem_iff.mpr hb))
  have hfinal := ho.final_certifyAll_perm hmem has hperm hdistinct
  have hentries : (h.certifyAll as).prune.checkpoints = (h.certifyAll bs).prune.checkpoints := by
    refine ho₁.prune.ascending.ext ho₂.prune.ascending fun c => ?_
    simp only [History.prune, List.mem_filter, decide_eq_true_eq, ← hfinal]
    exact and_congr_left fun hle => ho.mem_certifyAll_perm hmem has hperm hdistinct hle
  exact congrArg₂ History.mk hentries hfinal

end CertifyAll

/-- What a header and its ancestors leave does not depend on the order of the ancestors, once
    the history is pruned. -/
theorem prune_commit_perm (ho : h.Ordered) (hown : h.final.nonce < own.nonce)
    (hlow : Low own.nonce) (has : ∀ a ∈ as, a.nonce < own.nonce) (hperm : as.Perm bs)
    (hdistinct : (as.map Ancestor.nonce).Nodup) (depth : UInt64) :
    (h.commit depth own as).prune = (h.commit depth own bs).prune := by
  have hlast := last_settle_push h depth own
  -- The depth rule moves finality and leaves the entries, the header on top of them.
  have hmem : own ∈ ((h.push own).settle depth).checkpoints := by
    rw [checkpoints_settle]
    exact List.mem_append_right _ List.mem_cons_self
  exact ((ho.push hown hlow).settle depth).prune_certifyAll_perm (hlast.symm ▸ hmem)
    (hlast.symm ▸ has) hperm hdistinct

end Ordered

end History

end HeaderChain

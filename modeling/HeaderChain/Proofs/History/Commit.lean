import HeaderChain.Detector.State
import HeaderChain.Proofs.History.Sound

/-!
# Committing a Processed Header

What a processed header and its certified ancestors do to the checkpoints.

A commit pushes the header, applies the depth rule and then takes in the
ancestors one by one, each of which moves finality up and so may shut out
those that come later in the list. Followed step by step this depends on
the order of the list and on the gaps in the history. The outcome does not:
the depth rule picks one checkpoint, the list has one ancestor that is the
first of its highest nonce, and whichever of the two lies higher is final in
the end. If they lie at the same nonce it is the one of the depth rule,
because that is applied first and an ancestor has to lie above the final
checkpoint to be taken in.

## Main definitions

* `History.certifyAll`: The ancestors, one after the other.
* `History.commit`: The header, the depth rule and the ancestors.
* `IsDeepest`: The checkpoint that the depth rule picks.
* `FirstHighest`: The ancestor that comes first of those highest.

## Theorems

* `History.Ordered.commit`: A commit keeps a history ordered.
* `History.yieldsTo_commit`: A commit does not move finality down.
* `History.Ordered.mem_commit`, `History.Ordered.mem_commit_of_final_lt`:
  Where the entries come from, and those above the final checkpoint.
* `History.Ordered.settle_of_deepest`: What the depth rule does.
* `History.Ordered.final_settle_cases`, `History.Ordered.le_final_settle`: What
  it leaves final.
* `History.Ordered.final_commit`: An ancestor above the deep checkpoints
  becomes final.
* `History.Ordered.commit_of_deepest`: Ancestors that do not lie above a
  deep checkpoint are ignored.
-/

namespace HeaderChain

/-- The checkpoint that the depth rule picks: the highest of those that lie
    at least `depth` below `nonce`. -/
structure IsDeepest (cs : List Checkpoint) (depth nonce : UInt64) (c : Checkpoint) : Prop where
  /-- It is one of them. -/
  mem : c ∈ cs
  /-- It lies deep enough. -/
  deep : c.nonce.toNat + depth.toNat ≤ nonce.toNat
  /-- None of those that lie deep enough lies higher. -/
  highest : ∀ e ∈ cs, e.nonce.toNat + depth.toNat ≤ nonce.toNat → e.nonce ≤ c.nonce

/-- What holds of all checkpoints that lie deep enough holds of the one
    picked. -/
theorem IsDeepest.of_forall {cs : List Checkpoint} {depth nonce : UInt64} {c : Checkpoint}
    {p : Checkpoint → Prop} (hc : IsDeepest cs depth nonce c)
    (h : ∀ e ∈ cs, e.nonce.toNat + depth.toNat ≤ nonce.toNat → p e) : p c :=
  h c hc.mem hc.deep

/-- The first of the ancestors in a list that have the highest nonce. -/
structure FirstHighest (as : List Ancestor) (a : Ancestor) : Prop where
  /-- It is the first of its nonce. -/
  first : as.find? (·.nonce == a.nonce) = some a
  /-- None of the others lies higher. -/
  highest : ∀ b ∈ as, b.nonce ≤ a.nonce

namespace History

/-- Takes in certified ancestors, one after the other. -/
def certifyAll (h : History) (as : List Ancestor) : History :=
  as.foldl (fun h a => h.certify a.checkpoint) h

/-- The history after a processed header and its certified ancestors, before
    anything is pruned. -/
def commit (h : History) (depth : UInt64) (own : Checkpoint) (as : List Ancestor) : History :=
  ((h.push own).settle depth).certifyAll as

theorem certifyAll_cons (h : History) (a : Ancestor) (as : List Ancestor) :
    h.certifyAll (a :: as) = (h.certify a.checkpoint).certifyAll as :=
  rfl

theorem certifyAll_append (h : History) (as bs : List Ancestor) :
    h.certifyAll (as ++ bs) = (h.certifyAll as).certifyAll bs :=
  List.foldl_append

/-- Ancestors do not move finality down. -/
theorem yieldsTo_certifyAll (as : List Ancestor) (h : History) :
    h.final.YieldsTo (h.certifyAll as).final := by
  induction as generalizing h with
  | nil => exact .refl _
  | cons a rest ih => exact (yieldsTo_certify h a.checkpoint).trans (ih _)

/-- A commit does not move finality down. -/
theorem yieldsTo_commit (h : History) (depth : UInt64) (own : Checkpoint) (as : List Ancestor) :
    h.final.YieldsTo (h.commit depth own as).final :=
  (yieldsTo_settle (h.push own) depth).trans (yieldsTo_certifyAll as _)

theorem last_settle_push (h : History) (depth : UInt64) (c : Checkpoint) :
    ((h.push c).settle depth).last = c := by
  unfold last
  rw [checkpoints_settle, push, List.getLast?_concat]
  rfl

/-- A certified checkpoint that a history covers becomes final. -/
theorem final_certify {h : History} {c : Checkpoint} (hc : h.covers c.nonce) :
    (h.certify c).final = c := by
  have hlt : { h with checkpoints := place c h.checkpoints }.final.nonce < c.nonce :=
    (covers_iff.mp hc).1
  rw [certify, if_pos hc]
  exact final_raise hlt

theorem certify_of_not_covers {h : History} {c : Checkpoint} (hc : ¬ h.covers c.nonce) :
    h.certify c = h := by
  rw [certify, if_neg hc]

/-- Ancestors that do not lie above the final checkpoint are ignored. -/
theorem certifyAll_of_le {as : List Ancestor} {h : History}
    (hle : ∀ a ∈ as, a.nonce ≤ h.final.nonce) : h.certifyAll as = h := by
  induction as with
  | nil => rfl
  | cons a rest ih =>
      have hcovers : ¬ h.covers a.checkpoint.nonce := by
        rw [covers_iff]
        exact fun hc => UInt64.not_lt.mpr (hle a List.mem_cons_self) hc.1
      rw [certifyAll_cons, certify_of_not_covers hcovers]
      exact ih fun b hb => hle b (List.mem_cons_of_mem a hb)

/-- In low nonces the words do not overflow, so being deep is a matter of
    adding up. -/
theorem isDeep_iff {depth last nonce : UInt64} (hlow : Low last) :
    isDeep depth last nonce ↔ nonce.toNat + depth.toNat ≤ last.toNat := by
  -- The sum is cut off at the greatest word, which is not a low one.
  have hroom : Nat.pow 2 63 < UInt64.size := by decide
  unfold Low at hlow
  rw [isDeep, decide_eq_true_eq]
  omega

namespace Ordered

section Certify

variable {h : History} {c : Checkpoint}

/-- It displaces the entry of its nonce and no other. -/
theorem mem_certify_of_covers (ho : h.Ordered) (hcovers : h.covers c.nonce) {e : Checkpoint} :
    e ∈ (h.certify c).checkpoints ↔ e = c ∨ (e ∈ h.checkpoints ∧ e.nonce ≠ c.nonce) := by
  rw [History.certify, if_pos hcovers, checkpoints_raise]
  exact ho.ascending.mem_place

/-- Every entry was one before or is the certified checkpoint. -/
theorem mem_certify (ho : h.Ordered) {e : Checkpoint} (he : e ∈ (h.certify c).checkpoints) :
    e ∈ h.checkpoints ∨ e = c := by
  by_cases hcovers : h.covers c.nonce
  · rcases (ho.mem_certify_of_covers hcovers).mp he with rfl | hold
    · exact .inr rfl
    · exact .inl hold.1
  · rw [certify_of_not_covers hcovers] at he
    exact .inl he

/-- A certified checkpoint below the last entry leaves that alone. -/
theorem last_certify (ho : h.Ordered) (hmem : h.last ∈ h.checkpoints)
    (hlt : c.nonce < h.last.nonce) :
    h.last ∈ (h.certify c).checkpoints ∧ (h.certify c).last = h.last := by
  by_cases hcovers : h.covers c.nonce
  · -- The last entry is not the one displaced, and it is still the highest.
    have hkept : h.last ∈ (h.certify c).checkpoints :=
      (ho.mem_certify_of_covers hcovers).mpr (.inr ⟨hmem, (UInt64.ne_of_lt hlt).symm⟩)
    have hlow : Low c.nonce := (ho.low _ hmem).of_lt hlt
    refine ⟨hkept, last_eq_of_highest (ho.certify hlow).ascending hkept fun e he => ?_⟩
    rcases (ho.mem_certify_of_covers hcovers).mp he with rfl | hold
    · exact UInt64.le_of_lt hlt
    · exact ho.ascending.le_last hold.1
  · rw [certify_of_not_covers hcovers]
    exact ⟨hmem, rfl⟩

end Certify

variable {h : History} {depth : UInt64} {own c : Checkpoint} {as : List Ancestor} {a : Ancestor}

/-- Certified ancestors keep a history ordered. -/
theorem certifyAll (ho : h.Ordered) (hlow : ∀ a ∈ as, Low a.nonce) : (h.certifyAll as).Ordered := by
  induction as generalizing h with
  | nil => exact ho
  | cons b rest ih =>
      exact ih (ho.certify (hlow b List.mem_cons_self))
        fun e he => hlow e (List.mem_cons_of_mem b he)

/-- Every entry was one before or is an ancestor's. -/
theorem mem_certifyAll (ho : h.Ordered) (hlow : ∀ a ∈ as, Low a.nonce)
    (hc : c ∈ (h.certifyAll as).checkpoints) :
    c ∈ h.checkpoints ∨ ∃ a ∈ as, c = a.checkpoint := by
  induction as generalizing h with
  | nil => exact .inl hc
  | cons b rest ih =>
      have hb := hlow b List.mem_cons_self
      rcases ih (ho.certify hb) (fun e he => hlow e (List.mem_cons_of_mem b he)) hc with
        hold | ⟨e, he, rfl⟩
      · rcases ho.mem_certify hold with hold | rfl
        · exact .inl hold
        · exact .inr ⟨b, List.mem_cons_self, rfl⟩
      · exact .inr ⟨e, List.mem_cons_of_mem b he, rfl⟩

/-- What an ancestor becomes is final at once, so an entry above the final
    checkpoint was one before. -/
theorem mem_certifyAll_of_final_lt (ho : h.Ordered) (hlow : ∀ a ∈ as, Low a.nonce)
    (hc : c ∈ (h.certifyAll as).checkpoints) (hlt : (h.certifyAll as).final.nonce < c.nonce) :
    c ∈ h.checkpoints := by
  induction as generalizing h with
  | nil => exact hc
  | cons b rest ih =>
      have hb := hlow b List.mem_cons_self
      have hold := ih (ho.certify hb) (fun e he => hlow e (List.mem_cons_of_mem b he)) hc hlt
      by_cases hcovers : h.covers b.checkpoint.nonce
      · rcases (ho.mem_certify_of_covers hcovers).mp hold with rfl | hold
        · -- The ancestor's own entry is final, and finality does not move down.
          have hle := (yieldsTo_certifyAll rest (h.certify b.checkpoint)).nonce_le
          rw [final_certify hcovers] at hle
          exact absurd (UInt64.lt_of_le_of_lt hle hlt) (UInt64.lt_irrefl _)
        · exact hold.1
      · rw [certify_of_not_covers hcovers] at hold
        exact hold

/-- Ancestors below a nonce do not move finality up to it. A last entry that
    lies at it or above is left alone. -/
theorem certifyAll_below (ho : h.Ordered) (hmem : h.last ∈ h.checkpoints) {nonce : UInt64}
    (hbelow : ∀ b ∈ as, b.nonce < nonce) (hlast : nonce ≤ h.last.nonce)
    (hfinal : h.final.nonce < nonce) :
    (h.certifyAll as).final.nonce < nonce ∧ (h.certifyAll as).last = h.last := by
  induction as generalizing h with
  | nil => exact ⟨hfinal, rfl⟩
  | cons b rest ih =>
      have hb : b.checkpoint.nonce < nonce := hbelow b List.mem_cons_self
      have hblast := UInt64.lt_of_lt_of_le hb hlast
      have hlow : Low b.checkpoint.nonce := (ho.low _ hmem).of_lt hblast
      rcases ho.last_certify hmem hblast with ⟨hmem', hkeep⟩
      -- What becomes final is the ancestor or was final before.
      have hfinal' : (h.certify b.checkpoint).final.nonce < nonce := by
        by_cases hcovers : h.covers b.checkpoint.nonce
        · rw [final_certify hcovers]
          exact hb
        · rw [certify_of_not_covers hcovers]
          exact hfinal
      rw [← hkeep] at hmem' hlast ⊢
      exact ih (ho.certify hlow) hmem' (fun e he => hbelow e (List.mem_cons_of_mem b he)) hlast
        hfinal'

/-- The first of the highest ancestors becomes final if it lies above what is
    final and below the last entry. -/
theorem certifyAll_firstHighest (ho : h.Ordered) (hmem : h.last ∈ h.checkpoints)
    (ha : FirstHighest as a) (hfinal : h.final.nonce < a.nonce) (hlast : a.nonce < h.last.nonce) :
    (h.certifyAll as).final = a.checkpoint ∧ a.checkpoint ∈ (h.certifyAll as).checkpoints := by
  -- The list is what comes before the ancestor, the ancestor and what comes after.
  rcases List.find?_eq_some_iff_append.mp ha.first with ⟨_, before, after, hsplit, hbefore⟩
  -- Those listed before it are lower, because it is the first of its nonce.
  have hbelow : ∀ b ∈ before, b.nonce < a.nonce := by
    intro b hb
    refine UInt64.lt_of_le_of_ne (ha.highest b ?_) fun heq => ?_
    · rw [hsplit]
      exact List.mem_append_left _ hb
    · have hno := hbefore b hb
      rw [heq, beq_self_eq_true] at hno
      exact absurd hno (by decide)
  have hlow : ∀ b ∈ before, Low b.nonce := fun b hb =>
    (ho.low _ hmem).of_lt (UInt64.lt_trans (hbelow b hb) hlast)
  have ho' := ho.certifyAll hlow
  rcases ho.certifyAll_below hmem hbelow (UInt64.le_of_lt hlast) hfinal with
    ⟨hfinal', hlast'⟩
  -- They leave the range that is covered open down to the ancestor.
  have hcovers : (h.certifyAll before).covers a.checkpoint.nonce := by
    rw [covers_iff, hlast']
    exact ⟨hfinal', UInt64.le_of_lt hlast⟩
  -- Those listed after it do not lie above it, so they find nothing to do.
  have hafter : ∀ b ∈ after,
      b.nonce ≤ ((h.certifyAll before).certify a.checkpoint).final.nonce := by
    intro b hb
    rw [final_certify hcovers]
    refine ha.highest b ?_
    rw [hsplit]
    exact List.mem_append_right _ (List.mem_cons_of_mem a hb)
  rw [hsplit, certifyAll_append, certifyAll_cons, certifyAll_of_le hafter]
  exact ⟨final_certify hcovers, (ho'.mem_certify_of_covers hcovers).mpr (.inl rfl)⟩

/-- The depth rule searches from the end and finds the deepest checkpoint. -/
theorem find?_isDeep (ho : h.Ordered) (hlow : Low h.last.nonce) :
    h.checkpoints.reverse.find? (fun c => isDeep depth h.last.nonce c.nonce) = some c ↔
      IsDeepest h.checkpoints depth h.last.nonce c := by
  rw [ho.ascending.find?_reverse]
  constructor
  · rintro ⟨hmem, hdeep, hhighest⟩
    exact ⟨hmem, (isDeep_iff hlow).mp hdeep,
      fun e he hdeep => hhighest e he ((isDeep_iff hlow).mpr hdeep)⟩
  · intro hc
    exact ⟨hc.mem, (isDeep_iff hlow).mpr hc.deep,
      fun e he hdeep => hc.highest e he ((isDeep_iff hlow).mp hdeep)⟩

/-- The depth rule makes the deepest checkpoint final if that moves finality
    up. -/
theorem settle_of_deepest (ho : h.Ordered) (hlow : Low h.last.nonce)
    (hc : IsDeepest h.checkpoints depth h.last.nonce c) : h.settle depth = h.raise c := by
  rw [History.settle, (ho.find?_isDeep hlow).mpr hc]

/-- The depth rule does nothing but make the deepest checkpoint final. -/
theorem settle_cases (ho : h.Ordered) (hlow : Low h.last.nonce) (depth : UInt64) :
    h.settle depth = h ∨
      ∃ c, IsDeepest h.checkpoints depth h.last.nonce c ∧ h.settle depth = h.raise c := by
  cases hfind : h.checkpoints.reverse.find? (fun c => isDeep depth h.last.nonce c.nonce) with
  | none =>
      left
      rw [History.settle, hfind]
  | some c =>
      right
      have hc := (ho.find?_isDeep hlow).mp hfind
      exact ⟨c, hc, ho.settle_of_deepest hlow hc⟩

/-- So finality stays where it is or moves to an entry that lies deep enough. -/
theorem final_settle_cases (ho : h.Ordered) (hlow : Low h.last.nonce) (depth : UInt64) :
    (h.settle depth).final = h.final ∨
      ((h.settle depth).final ∈ h.checkpoints ∧
        (h.settle depth).final.nonce.toNat + depth.toNat ≤ h.last.nonce.toNat) := by
  rcases ho.settle_cases hlow depth with hsame | ⟨c, hc, hraise⟩
  · rw [hsame]
    exact .inl rfl
  · rw [hraise]
    by_cases hup : h.final.nonce < c.nonce
    · rw [final_raise hup]
      exact .inr ⟨hc.mem, hc.deep⟩
    · rw [raise_of_le (UInt64.not_lt.mp hup)]
      exact .inl rfl

/-- Nothing that lies deep enough is left above the final checkpoint. -/
theorem le_final_settle (ho : h.Ordered) (hlow : Low h.last.nonce) (hc : c ∈ h.checkpoints)
    (hdeep : c.nonce.toNat + depth.toNat ≤ h.last.nonce.toNat) :
    c.nonce ≤ (h.settle depth).final.nonce := by
  cases hfind : h.checkpoints.reverse.find? (fun c => isDeep depth h.last.nonce c.nonce) with
  | none =>
      -- The search would have found at least this one.
      have hno := List.find?_eq_none.mp hfind c (List.mem_reverse.mpr hc)
      exact absurd ((isDeep_iff hlow).mpr hdeep) hno
  | some e =>
      have he := (ho.find?_isDeep hlow).mp hfind
      have hle : c.nonce ≤ e.nonce := he.highest c hc hdeep
      rw [ho.settle_of_deepest hlow he]
      by_cases hup : h.final.nonce < e.nonce
      · rw [final_raise hup]
        exact hle
      · rw [raise_of_le (UInt64.not_lt.mp hup)]
        exact UInt64.le_trans hle (UInt64.not_lt.mp hup)

/-- The depth rule leaves finality below a nonce if the deepest checkpoint
    lies below it. -/
theorem final_settle_lt (ho : h.Ordered) (hlow : Low h.last.nonce) {nonce : UInt64}
    (hfinal : h.final.nonce < nonce)
    (hdeep : ∀ c, IsDeepest h.checkpoints depth h.last.nonce c → c.nonce < nonce) :
    (h.settle depth).final.nonce < nonce := by
  rcases ho.settle_cases hlow depth with hsame | ⟨c, hc, hraise⟩
  · rw [hsame]
    exact hfinal
  · rw [hraise]
    by_cases hup : h.final.nonce < c.nonce
    · rw [final_raise hup]
      exact hdeep c hc
    · rw [raise_of_le (UInt64.not_lt.mp hup)]
      exact hfinal

section Commit

variable (ho : h.Ordered) (hown : h.final.nonce < own.nonce) (hlow : Low own.nonce)

include ho hown hlow

/-- A commit keeps a history ordered. -/
theorem commit (has : ∀ a ∈ as, a.nonce < own.nonce) : (h.commit depth own as).Ordered :=
  ((ho.push hown hlow).settle depth).certifyAll fun a ha => hlow.of_lt (has a ha)

/-- Every entry was one before, or is the header's or an ancestor's. -/
theorem mem_commit (has : ∀ a ∈ as, a.nonce < own.nonce)
    (hc : c ∈ (h.commit depth own as).checkpoints) :
    c ∈ h.checkpoints ∨ c = own ∨ ∃ a ∈ as, c = a.checkpoint := by
  rcases ((ho.push hown hlow).settle depth).mem_certifyAll
    (fun a ha => hlow.of_lt (has a ha)) hc with hold | hnew
  · rw [checkpoints_settle] at hold
    rcases List.mem_append.mp hold with hold | hsame
    · exact .inl (List.mem_filter.mp hold).1
    · exact .inr (.inl (List.mem_singleton.mp hsame))
  · exact .inr (.inr hnew)

/-- Every entry above the final checkpoint was one before, below the header,
    or is the header's. -/
theorem mem_commit_of_final_lt (has : ∀ a ∈ as, a.nonce < own.nonce)
    (hc : c ∈ (h.commit depth own as).checkpoints)
    (hlt : (h.commit depth own as).final.nonce < c.nonce) :
    (c ∈ h.checkpoints ∧ c.nonce < own.nonce) ∨ c = own := by
  have hpushed := ((ho.push hown hlow).settle depth).mem_certifyAll_of_final_lt
    (fun a ha => hlow.of_lt (has a ha)) hc hlt
  rw [checkpoints_settle] at hpushed
  rcases List.mem_append.mp hpushed with hold | hnew
  · rcases List.mem_filter.mp hold with ⟨hmem, hbelow⟩
    exact .inl ⟨hmem, of_decide_eq_true hbelow⟩
  · exact .inr (List.mem_singleton.mp hnew)

/-- The first of the highest ancestors becomes final if it lies above
    everything that is deep enough. -/
theorem final_commit (ha : FirstHighest as a) (hbetween : h.final.nonce < a.nonce)
    (hbelow : a.nonce < own.nonce)
    (hdeep : ∀ c, IsDeepest (h.push own).checkpoints depth own.nonce c → c.nonce < a.nonce) :
    (h.commit depth own as).final = a.checkpoint ∧
      a.checkpoint ∈ (h.commit depth own as).checkpoints := by
  have hlast := last_settle_push h depth own
  have hpush := ho.push hown hlow
  have hmem : own ∈ ((h.push own).settle depth).checkpoints := by
    rw [checkpoints_settle]
    exact List.mem_append_right _ List.mem_cons_self
  have hfinal : ((h.push own).settle depth).final.nonce < a.nonce := by
    refine hpush.final_settle_lt ?_ hbetween fun c hc => hdeep c ?_
    · rw [last_push]
      exact hlow
    · rw [last_push] at hc
      exact hc
  refine (hpush.settle depth).certifyAll_firstHighest ?_ ha hfinal ?_
  · rw [hlast]
    exact hmem
  · rw [hlast]
    exact hbelow

/-- A deep checkpoint becomes final, and the ancestors are ignored, if none of
    them lies above it. -/
theorem commit_of_deepest (hc : IsDeepest (h.push own).checkpoints depth own.nonce c)
    (hup : h.final.nonce < c.nonce) (has : ∀ a ∈ as, a.nonce ≤ c.nonce) :
    (h.commit depth own as).final = c ∧ c ∈ (h.commit depth own as).checkpoints := by
  have hlast := last_push h own
  have hraise : (h.push own).settle depth = (h.push own).raise c :=
    (ho.push hown hlow).settle_of_deepest (by rw [hlast]; exact hlow) (by rw [hlast]; exact hc)
  have hfinal : ((h.push own).raise c).final = c := final_raise hup
  -- By the time the ancestors are taken in, none of them is above finality.
  have hle : ∀ a ∈ as, a.nonce ≤ ((h.push own).raise c).final.nonce := by
    rw [hfinal]
    exact has
  rw [History.commit, hraise, certifyAll_of_le hle, hfinal, checkpoints_raise]
  exact ⟨rfl, hc.mem⟩

end Commit

end Ordered

end History

end HeaderChain

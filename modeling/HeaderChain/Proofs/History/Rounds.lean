import HeaderChain.Proofs.History.Commit

/-!
# Rounds of a History

Whether the rounds of the checkpoints go up with their nonces.

Nothing in a history makes them. A processed header is pushed on top of the
entries below it whatever their rounds are, so the entries ascend by nonce and
not by round. If each header is of a later round than the entries that it is
pushed on top of, though, the rounds do go up, because the depth rule, pruning
and rolling back only choose among what is there.

The final checkpoint is followed together with the entries. Rolling back its
nonce takes its entry from the history but leaves it final, and from then on the
gates still measure every header by its round.

The depth rule picks the header itself only at depth zero. At any other depth
the header stays on top of something: of what it was pushed on, or of the
checkpoint that became final.

## Main definitions

* `History.marks`: The final checkpoint and the entries.
* `Climbing`: The nonces and the rounds of a list ascend.
* `History.Paced`: Of two marks the higher is of the later round.

## Theorems

* `Ascending.climbing_iff`: A list climbs if a higher entry is of a later round.
* `History.marks_settle`, `History.marks_settleAll`, `History.marks_filter`: No
  other step adds a mark.
* `History.marks_commit`: Taking in a header adds the marks that come with it.
* `History.Paced.push`: A header of a later round keeps a history paced.
* `History.Sound.last_prune_settle_push`: A header that is pushed ends up last.
* `History.Sound.final_settle_push`: At depth zero the depth rule picks the
  header.
* `History.Sound.exists_kept_below`: At any other depth the header stays on top
  of something.
-/

namespace HeaderChain

/-- The nonces of a list of checkpoints strictly ascend, and the rounds with
    them. -/
def Climbing (cs : List Checkpoint) : Prop :=
  cs.Pairwise fun a b => a.nonce < b.nonce ∧ a.round < b.round

instance (cs : List Checkpoint) : Decidable (Climbing cs) :=
  inferInstanceAs (Decidable (cs.Pairwise _))

theorem Climbing.round_lt {cs : List Checkpoint} (h : Climbing cs) {a b : Checkpoint}
    (ha : a ∈ cs) (hb : b ∈ cs) (hab : a.nonce < b.nonce) : a.round < b.round := by
  induction cs with
  | nil => exact absurd ha List.not_mem_nil
  | cons c rest ih =>
      have hc := List.pairwise_cons.mp h
      -- The one of the lower nonce stands in front of the other.
      rcases List.mem_cons.mp hb with rfl | hbrest
      · rcases List.mem_cons.mp ha with rfl | harest
        · exact absurd hab (UInt64.lt_irrefl _)
        · exact absurd hab (UInt64.lt_asymm (hc.1 a harest).1)
      · rcases List.mem_cons.mp ha with rfl | harest
        · exact (hc.1 b hbrest).2
        · exact ih hc.2 harest hbrest

/-- A list that ascends climbs if a higher entry is of a later round. -/
theorem Ascending.climbing_iff {cs : List Checkpoint} (h : Ascending cs) :
    Climbing cs ↔ ∀ a ∈ cs, ∀ b ∈ cs, a.nonce < b.nonce → a.round < b.round := by
  constructor
  · exact fun hc a ha b hb => hc.round_lt ha hb
  · intro hrounds
    exact List.Pairwise.imp_of_mem (fun ha hb hab => ⟨hab, hrounds _ ha _ hb hab⟩) h

namespace History

/-- The final checkpoint and the entries of a history. -/
def marks (h : History) : List Checkpoint :=
  h.final :: h.checkpoints

variable {h : History} {c own : Checkpoint}

theorem last_mem_marks (h : History) : h.last ∈ h.marks := by
  rcases last_cases h with hmem | ⟨_, hfinal⟩
  · exact List.mem_cons_of_mem _ hmem
  · rw [hfinal]
    exact List.mem_cons_self

-- Steps that add no mark.

theorem marks_raise (hc : c ∈ h.marks) : (h.raise c).marks ⊆ h.marks := by
  by_cases hlt : h.final.nonce < c.nonce
  · unfold marks
    rw [final_raise hlt, checkpoints_raise]
    exact List.cons_subset.mpr ⟨hc, List.subset_cons_self _ _⟩
  · rw [raise_of_le (UInt64.not_lt.mp hlt)]
    exact List.Subset.refl _

theorem marks_settle (h : History) (depth : UInt64) : (h.settle depth).marks ⊆ h.marks := by
  unfold settle
  split
  · next c hc =>
    exact marks_raise
      (List.mem_cons_of_mem _ (List.mem_reverse.mp (List.mem_of_find?_eq_some hc)))
  · exact List.Subset.refl _

theorem marks_settleAll (h : History) : h.settleAll.marks ⊆ h.marks :=
  marks_raise h.last_mem_marks

theorem marks_filter (h : History) (test : Checkpoint → Bool) :
    { h with checkpoints := h.checkpoints.filter test }.marks ⊆ h.marks :=
  List.cons_subset_cons _ fun _ hc => (List.mem_filter.mp hc).1

-- Steps that add what they are given and no other.

theorem marks_push (h : History) (c : Checkpoint) : (h.push c).marks ⊆ c :: h.marks := by
  intro e he
  rcases List.mem_cons.mp he with rfl | he
  · exact List.mem_cons_of_mem c List.mem_cons_self
  · rcases List.mem_append.mp he with hold | hnew
    · exact List.mem_cons_of_mem c (List.mem_cons_of_mem _ (List.mem_filter.mp hold).1)
    · rw [List.mem_singleton.mp hnew]
      exact List.mem_cons_self

theorem marks_certify (h : History) (c : Checkpoint) : (h.certify c).marks ⊆ c :: h.marks := by
  intro e he
  by_cases hcovers : h.covers c.nonce
  · rcases List.mem_cons.mp he with rfl | he
    · rw [final_certify hcovers]
      exact List.mem_cons_self
    · rw [certify, if_pos hcovers, checkpoints_raise] at he
      rcases List.mem_cons.mp (place_subset c h.checkpoints he) with rfl | hold
      · exact List.mem_cons_self
      · exact List.mem_cons_of_mem c (List.mem_cons_of_mem _ hold)
  · rw [certify_of_not_covers hcovers] at he
    exact List.mem_cons_of_mem c he

theorem marks_certifyAll (h : History) (as : List Ancestor) :
    (h.certifyAll as).marks ⊆ as.map Ancestor.checkpoint ++ h.marks := by
  induction as generalizing h with
  | nil => exact List.Subset.refl _
  | cons a rest ih =>
      intro e he
      rcases List.mem_append.mp (ih (h.certify a.checkpoint) he) with hrest | hold
      · exact List.mem_cons_of_mem _ (List.mem_append_left _ hrest)
      · rcases List.mem_cons.mp (marks_certify h a.checkpoint hold) with rfl | hold
        · exact List.mem_cons_self
        · exact List.mem_cons_of_mem _ (List.mem_append_right _ hold)

/-- What a processed header leaves was there before, or is its own checkpoint or
    that of one of its ancestors. -/
theorem marks_commit (h : History) (depth : UInt64) (own : Checkpoint) (as : List Ancestor) :
    (h.commit depth own as).marks ⊆ as.map Ancestor.checkpoint ++ own :: h.marks := by
  intro e he
  rcases List.mem_append.mp (marks_certifyAll _ as he) with hnew | hold
  · exact List.mem_append_left _ hnew
  · exact List.mem_append_right _ (marks_push h own (marks_settle (h.push own) depth hold))

/-- The marks after a header is pushed are the header's and those below it, if
    the final checkpoint is one of them. -/
theorem mem_marks_push (hown : h.final.nonce < own.nonce) :
    c ∈ (h.push own).marks ↔ (c ∈ h.marks ∧ c.nonce < own.nonce) ∨ c = own := by
  unfold marks push
  simp only [List.mem_cons, List.mem_append, List.mem_filter, List.not_mem_nil, or_false,
    decide_eq_true_eq]
  constructor
  · rintro (rfl | ⟨hmem, hlt⟩ | rfl)
    · exact .inl ⟨.inl rfl, hown⟩
    · exact .inl ⟨.inr hmem, hlt⟩
    · exact .inr rfl
  · rintro (⟨rfl | hmem, hlt⟩ | rfl)
    · exact .inl rfl
    · exact .inr (.inl ⟨hmem, hlt⟩)
    · exact .inr (.inr rfl)

/-- The depth rule does not move finality beyond the header. -/
theorem final_settle_push_le (hown : h.final.nonce < own.nonce) (depth : UInt64) :
    ((h.push own).settle depth).final.nonce ≤ own.nonce := by
  rcases (mem_marks_push hown).mp (marks_settle _ depth List.mem_cons_self) with ⟨_, hlt⟩ | heq
  · exact UInt64.le_of_lt hlt
  · exact UInt64.le_of_eq (congrArg Checkpoint.nonce heq)

/-- The header stays an entry when what lies below the final checkpoint is
    dropped. -/
theorem mem_prune_settle_push (hown : h.final.nonce < own.nonce) (depth : UInt64) :
    own ∈ ((h.push own).settle depth).prune.checkpoints := by
  refine List.mem_filter.mpr ⟨?_, decide_eq_true (final_settle_push_le hown depth)⟩
  rw [checkpoints_settle]
  exact List.mem_append_right _ List.mem_cons_self

/-- Of two marks the higher is of the later round. -/
def Paced (h : History) : Prop :=
  ∀ a ∈ h.marks, ∀ b ∈ h.marks, a.nonce < b.nonce → a.round < b.round

namespace Paced

theorem of_subset {h' : History} (hp : h.Paced) (hsub : h'.marks ⊆ h.marks) : h'.Paced :=
  fun a ha b hb => hp a (hsub ha) b (hsub hb)

/-- A header of a later round than the marks below it keeps a history paced. -/
theorem push (hp : h.Paced) (hown : h.final.nonce < own.nonce)
    (hlater : ∀ a ∈ h.marks, a.nonce < own.nonce → a.round < own.round) :
    (h.push own).Paced := by
  intro a ha b hb hab
  rcases (mem_marks_push hown).mp ha with ⟨haold, halt⟩ | rfl
  · rcases (mem_marks_push hown).mp hb with ⟨hbold, _⟩ | rfl
    · exact hp a haold b hbold hab
    · exact hlater a haold halt
  · rcases (mem_marks_push hown).mp hb with ⟨_, hblt⟩ | rfl
    · exact absurd hab (UInt64.lt_asymm hblt)
    · exact absurd hab (UInt64.lt_irrefl _)

/-- The last checkpoint of a sound history is of no earlier round than the final
    one. -/
theorem final_le_last (hp : h.Paced) (hs : h.Sound) : h.final.round ≤ h.last.round := by
  rcases UInt64.lt_or_eq_of_le hs.final_le_last with hlt | heq
  · exact UInt64.le_of_lt (hp _ List.mem_cons_self _ h.last_mem_marks hlt)
  · rw [hs.last_eq_final heq.symm]
    exact UInt64.le_refl _

end Paced

namespace Sound

variable {depth : UInt64} (hs : h.Sound) (hown : h.final.nonce < own.nonce) (hlow : Low own.nonce)

include hs hown hlow

/-- The header that is pushed ends up last. -/
theorem last_prune_settle_push (depth : UInt64) :
    ((h.push own).settle depth).prune.last = own := by
  have hsettled := (hs.toOrdered.push hown hlow).settle depth
  refine last_eq_of_highest hsettled.prune.ascending (mem_prune_settle_push hown depth)
    fun c hc => ?_
  -- All that it is pushed on top of lies below it.
  have hpushed := (List.mem_filter.mp hc).1
  rw [checkpoints_settle] at hpushed
  rcases List.mem_append.mp hpushed with hold | hnew
  · exact UInt64.le_of_lt (of_decide_eq_true (List.mem_filter.mp hold).2)
  · exact UInt64.le_of_eq (congrArg Checkpoint.nonce (List.mem_singleton.mp hnew))

/-- At depth zero the depth rule picks the header that is pushed. -/
theorem final_settle_push : ((h.push own).settle 0).final = own := by
  have hlast := last_push h own
  have hmem : own ∈ (h.push own).checkpoints := List.mem_append_right _ List.mem_cons_self
  have hlow' : Low (h.push own).last.nonce := by
    rw [hlast]
    exact hlow
  have hdeep : own.nonce.toNat + (0 : UInt64).toNat ≤ (h.push own).last.nonce.toNat := by
    rw [hlast]
    exact Nat.le_refl _
  have hle := (hs.toOrdered.push hown hlow).le_final_settle hlow' hmem hdeep
  -- Of the marks only the header itself does not lie below it.
  rcases (mem_marks_push hown).mp (marks_settle _ 0 List.mem_cons_self) with ⟨_, hlt⟩ | heq
  · exact absurd (UInt64.lt_of_lt_of_le hlt hle) (UInt64.lt_irrefl _)
  · exact heq

/-- At any other depth finality stays where it is, or an entry below the header
    becomes final. -/
theorem settle_push_cases (hdepth : depth ≠ 0) :
    ((h.push own).settle depth).final = h.final ∨
      (((h.push own).settle depth).final ∈ h.checkpoints ∧
        ((h.push own).settle depth).final.nonce < own.nonce) := by
  have hlast := last_push h own
  have hlow' : Low (h.push own).last.nonce := by
    rw [hlast]
    exact hlow
  rcases (hs.toOrdered.push hown hlow).final_settle_cases hlow' depth with hsame | ⟨hmem, hdeep⟩
  · exact .inl hsame
  · -- What is picked lies below the header by at least one nonce.
    have hpos : 0 < depth.toNat :=
      Nat.pos_of_ne_zero fun hzero => hdepth (UInt64.toNat_inj.mp hzero)
    have hbelow : ((h.push own).settle depth).final.nonce < own.nonce := by
      rw [hlast] at hdeep
      rw [UInt64.lt_iff_toNat_lt]
      omega
    rcases List.mem_append.mp hmem with hold | hnew
    · exact .inr ⟨(List.mem_filter.mp hold).1, hbelow⟩
    · rw [List.mem_singleton.mp hnew] at hbelow
      exact absurd hbelow (UInt64.lt_irrefl _)

/-- Except at depth zero, of the entries below the header one stays that lies as
    high as any of them. -/
theorem exists_kept_below (hdepth : depth ≠ 0) (hc : c ∈ h.checkpoints)
    (hlt : c.nonce < own.nonce) :
    ∃ e ∈ h.checkpoints, c.nonce ≤ e.nonce ∧ e.nonce < own.nonce ∧
      e ∈ ((h.push own).settle depth).prune.checkpoints := by
  have hkept : ∀ e ∈ h.checkpoints, e.nonce < own.nonce →
      ((h.push own).settle depth).final.nonce ≤ e.nonce →
      e ∈ ((h.push own).settle depth).prune.checkpoints := by
    intro e he hbelow hle
    refine List.mem_filter.mpr ⟨?_, decide_eq_true hle⟩
    rw [checkpoints_settle]
    exact List.mem_append_left _ (List.mem_filter.mpr ⟨he, decide_eq_true hbelow⟩)
  by_cases hle : ((h.push own).settle depth).final.nonce ≤ c.nonce
  · exact ⟨c, hc, UInt64.le_refl _, hlt, hkept c hc hlt hle⟩
  · -- What became final lies above it, and stays.
    have habove := UInt64.not_le.mp hle
    rcases hs.settle_push_cases hown hlow hdepth with hsame | ⟨hmem, hbelow⟩
    · rw [hsame] at hle
      exact absurd (hs.above c hc) hle
    · exact ⟨_, hmem, UInt64.le_of_lt habove, hbelow, hkept _ hmem hbelow (UInt64.le_refl _)⟩

end Sound

end History

end HeaderChain

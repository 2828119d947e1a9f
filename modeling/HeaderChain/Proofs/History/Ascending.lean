import HeaderChain.Checkpoint

/-!
# Ascending Checkpoints

Lists of checkpoints whose nonces strictly ascend.

Putting an ancestor into its place and looking for the highest checkpoint
that is deep enough both walk along the history and stop at the first
checkpoint that fits. Where they stop says something about the whole history
only because its nonces ascend. Here the two are described without the walk:
an ancestor displaces the checkpoint of its nonce and no other, and a search
from the end finds the highest of all that fit.

## Main definitions

* `Ascending`: The nonces of a list strictly ascend.

## Theorems

* `Ascending.eq_of_nonce_eq`: A nonce has one checkpoint at most.
* `Ascending.find?_reverse`: A search from the end finds the highest.
* `Ascending.mem_place`: What an ancestor displaces.
* `History.last_cases`: The last checkpoint is an entry or the final one.
* `Ascending.le_last`: It is the highest.
* `last_eq_of_highest`: And the highest is the last.
-/

namespace HeaderChain

/-- The nonces of a list of checkpoints strictly ascend. -/
def Ascending (cs : List Checkpoint) : Prop :=
  cs.Pairwise fun a b => a.nonce < b.nonce

namespace Ascending

/-- A nonce has one checkpoint at most. -/
theorem eq_of_nonce_eq {cs : List Checkpoint} (h : Ascending cs) {a b : Checkpoint}
    (ha : a ∈ cs) (hb : b ∈ cs) (hab : a.nonce = b.nonce) : a = b := by
  induction cs with
  | nil => exact absurd ha List.not_mem_nil
  | cons c rest ih =>
      have hc := List.pairwise_cons.mp h
      -- Of two at different places, one has the lower nonce.
      rcases List.mem_cons.mp ha with rfl | harest
      · rcases List.mem_cons.mp hb with rfl | hbrest
        · rfl
        · exact absurd hab (UInt64.ne_of_lt (hc.1 b hbrest))
      · rcases List.mem_cons.mp hb with rfl | hbrest
        · exact absurd hab.symm (UInt64.ne_of_lt (hc.1 a harest))
        · exact ih hc.2 harest hbrest

theorem filter {cs : List Checkpoint} (h : Ascending cs) (test : Checkpoint → Bool) :
    Ascending (cs.filter test) :=
  List.Pairwise.filter test h

/-- What a search from the end finds is at least as high as all that fits. -/
theorem le_of_find?_reverse {cs : List Checkpoint} (h : Ascending cs)
    {fits : Checkpoint → Bool} {c : Checkpoint} (hc : cs.reverse.find? fits = some c) :
    ∀ e ∈ cs, fits e → e.nonce ≤ c.nonce := by
  intro e he hfits
  rw [List.find?_eq_some_iff_append] at hc
  rcases hc with ⟨_, above, below, hsplit, hnone⟩
  -- Read forwards, the history is what lies below, the find and what the
  -- search has passed.
  have hcs : cs = below.reverse ++ c :: above.reverse := by
    rw [← List.reverse_reverse cs, hsplit]
    simp only [List.reverse_append, List.reverse_cons, List.append_assoc, List.cons_append,
      List.nil_append]
  unfold Ascending at h
  rw [hcs, List.pairwise_append] at h
  rw [hcs] at he
  rcases List.mem_append.mp he with hbelow | habove
  · exact UInt64.le_of_lt (h.2.2 e hbelow c List.mem_cons_self)
  · rcases List.mem_cons.mp habove with rfl | habove
    · exact UInt64.le_refl _
    · -- The search has passed everything above, so nothing there fits.
      have hno := hnone e (List.mem_reverse.mp habove)
      rw [hfits] at hno
      exact absurd hno (by decide)

/-- A search from the end finds the highest of the checkpoints that fit. -/
theorem find?_reverse {cs : List Checkpoint} (h : Ascending cs) {fits : Checkpoint → Bool}
    {c : Checkpoint} :
    cs.reverse.find? fits = some c ↔
      c ∈ cs ∧ fits c ∧ ∀ e ∈ cs, fits e → e.nonce ≤ c.nonce := by
  constructor
  · intro hc
    exact ⟨List.mem_reverse.mp (List.mem_of_find?_eq_some hc), List.find?_some hc,
      h.le_of_find?_reverse hc⟩
  · rintro ⟨hmem, hfits, hhighest⟩
    cases hfound : cs.reverse.find? fits with
    | none =>
        -- Then nothing fits, not even the highest.
        rw [List.find?_eq_none] at hfound
        exact absurd hfits (hfound c (List.mem_reverse.mpr hmem))
    | some e =>
        -- The find and the highest are as high as each other.
        have he : e ∈ cs := List.mem_reverse.mp (List.mem_of_find?_eq_some hfound)
        have hle := h.le_of_find?_reverse hfound c hmem hfits
        have hge := hhighest e he (List.find?_some hfound)
        rw [h.eq_of_nonce_eq he hmem (UInt64.le_antisymm hge hle)]

/-- An ancestor displaces the checkpoint of its nonce and no other. -/
theorem mem_place {cs : List Checkpoint} (h : Ascending cs) {c e : Checkpoint} :
    e ∈ History.place c cs ↔ e = c ∨ (e ∈ cs ∧ e.nonce ≠ c.nonce) := by
  induction cs with
  | nil => simp only [History.place, List.mem_singleton, List.not_mem_nil, false_and, or_false]
  | cons d rest ih =>
      have hd := List.pairwise_cons.mp h
      unfold History.place
      split
      · next hlt =>
        -- The whole list lies above the ancestor.
        have habove : ∀ f ∈ d :: rest, f.nonce ≠ c.nonce := by
          intro f hf
          rcases List.mem_cons.mp hf with rfl | hf
          · exact (UInt64.ne_of_lt hlt).symm
          · exact (UInt64.ne_of_lt (UInt64.lt_trans hlt (hd.1 f hf))).symm
        rw [List.mem_cons]
        exact or_congr_right ⟨fun he => ⟨he, habove e he⟩, fun he => he.1⟩
      · split
        · next heq =>
          -- The first checkpoint gives way, and the rest lies above it.
          have habove : ∀ f ∈ rest, f.nonce ≠ c.nonce := by
            intro f hf
            rw [heq]
            exact (UInt64.ne_of_lt (hd.1 f hf)).symm
          rw [List.mem_cons, List.mem_cons]
          refine or_congr_right ⟨fun he => ⟨.inr he, habove e he⟩, ?_⟩
          rintro ⟨rfl | he, hne⟩
          · exact absurd heq.symm hne
          · exact he
        · next hne =>
          -- The first checkpoint stays, whatever happens behind it.
          rw [List.mem_cons, List.mem_cons, ih hd.2]
          constructor
          · rintro (rfl | rfl | he)
            · exact .inr ⟨.inl rfl, fun hec => hne hec.symm⟩
            · exact .inl rfl
            · exact .inr ⟨.inr he.1, he.2⟩
          · rintro (rfl | ⟨rfl | he, hec⟩)
            · exact .inr (.inl rfl)
            · exact .inl rfl
            · exact .inr (.inr ⟨he, hec⟩)

/-- Putting an ancestor into its place keeps a list ascending. -/
theorem place {cs : List Checkpoint} (h : Ascending cs) (c : Checkpoint) :
    Ascending (History.place c cs) := by
  induction cs with
  | nil => exact List.pairwise_singleton _ _
  | cons d rest ih =>
      have hd := List.pairwise_cons.mp h
      unfold History.place
      split
      · next hlt =>
        refine List.pairwise_cons.mpr ⟨fun e he => ?_, h⟩
        rcases List.mem_cons.mp he with rfl | he
        · exact hlt
        · exact UInt64.lt_trans hlt (hd.1 e he)
      · next hnlt =>
        split
        · next heq => exact List.pairwise_cons.mpr ⟨fun e he => heq ▸ hd.1 e he, hd.2⟩
        · next hne =>
          -- What follows the first checkpoint now is the ancestor or was there.
          have hdc : d.nonce < c.nonce :=
            UInt64.lt_of_le_of_ne (UInt64.not_lt.mp hnlt) (fun hdc => hne hdc.symm)
          refine List.pairwise_cons.mpr ⟨fun e he => ?_, ih hd.2⟩
          rcases (mem_place hd.2).mp he with rfl | he
          · exact hdc
          · exact hd.1 e he.1

end Ascending

namespace History

/-- Putting a checkpoint into its place adds nothing else. -/
theorem place_subset (c : Checkpoint) (cs : List Checkpoint) : place c cs ⊆ c :: cs := by
  induction cs with
  | nil => exact List.Subset.refl _
  | cons d rest ih =>
      unfold place
      split
      · exact List.Subset.refl _
      · split
        · exact List.cons_subset_cons c (List.subset_cons_self d rest)
        · intro e he
          rcases List.mem_cons.mp he with rfl | he
          · exact List.mem_cons_of_mem c List.mem_cons_self
          · rcases List.mem_cons.mp (ih he) with rfl | he
            · exact List.mem_cons_self
            · exact List.mem_cons_of_mem c (List.mem_cons_of_mem d he)

/-- The last checkpoint is an entry, or there are none and it is the final
    one. -/
theorem last_cases (h : History) :
    h.last ∈ h.checkpoints ∨ (h.checkpoints = [] ∧ h.last = h.final) := by
  unfold last
  cases hlast : h.checkpoints.getLast? with
  | none => exact .inr ⟨List.getLast?_eq_none_iff.mp hlast, rfl⟩
  | some l => exact .inl (List.mem_of_getLast? hlast)

theorem last_mem {h : History} {c : Checkpoint} (hc : c ∈ h.checkpoints) :
    h.last ∈ h.checkpoints := by
  rcases last_cases h with hmem | ⟨hnil, _⟩
  · exact hmem
  · rw [hnil] at hc
    exact absurd hc List.not_mem_nil

/-- If it lies above the final one, it is an entry. -/
theorem last_mem_of_final_lt {h : History} (hlt : h.final.nonce < h.last.nonce) :
    h.last ∈ h.checkpoints := by
  rcases last_cases h with hmem | ⟨_, hfinal⟩
  · exact hmem
  · rw [hfinal] at hlt
    exact absurd hlt (UInt64.lt_irrefl _)

theorem last_push (h : History) (c : Checkpoint) : (h.push c).last = c := by
  unfold last push
  rw [List.getLast?_concat]
  rfl

end History

/-- The last checkpoint is the highest. -/
theorem Ascending.le_last {h : History} (hasc : Ascending h.checkpoints) {c : Checkpoint}
    (hc : c ∈ h.checkpoints) : c.nonce ≤ h.last.nonce := by
  cases hlast : h.checkpoints.getLast? with
  | none =>
      rw [List.getLast?_eq_none_iff.mp hlast] at hc
      exact absurd hc List.not_mem_nil
  | some l =>
      have heq : h.last = l := by
        rw [History.last, hlast]
        rfl
      -- All entries but the last stand in front of it.
      rw [List.getLast?_eq_some_iff] at hlast
      rcases hlast with ⟨front, hsplit⟩
      unfold Ascending at hasc
      rw [hsplit, List.pairwise_append] at hasc
      rw [hsplit] at hc
      rw [heq]
      rcases List.mem_append.mp hc with hfront | hl
      · exact UInt64.le_of_lt (hasc.2.2 c hfront l List.mem_cons_self)
      · rw [List.mem_singleton.mp hl]
        exact UInt64.le_refl _

/-- The highest checkpoint is the last one. -/
theorem last_eq_of_highest {h : History} (hasc : Ascending h.checkpoints) {c : Checkpoint}
    (hc : c ∈ h.checkpoints) (hhighest : ∀ e ∈ h.checkpoints, e.nonce ≤ c.nonce) :
    h.last = c := by
  have hmem := History.last_mem hc
  exact hasc.eq_of_nonce_eq hmem hc
    (UInt64.le_antisymm (hhighest _ hmem) (hasc.le_last hc))

end HeaderChain

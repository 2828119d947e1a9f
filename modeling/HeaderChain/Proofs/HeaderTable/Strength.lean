import HeaderChain.Proofs.HeaderTable.Processed
import Mathlib.Order.Bounds.Defs

/-!
# How Strongly a Header Is Known

What a sequence of observations makes of a header that a table holds.

A header that is held may be observed again, and what changes then is its provenance
alone. That moves up, and only to the provenance of an observation of this header, so in
the end it is the strongest of all that the header was known by. Nothing is lost on the
way, with one exception: a processed header gives way when another one of its nonce is
processed.

The exception is why the first observation of a sequence is treated apart. It is the one
that may be processed. Those behind it are of ancestors, which make no room.

## Main definitions

* `HeaderTable.sources`: The provenances that a header is known by.

## Theorems

* `HeaderTable.Consistent.observe_eq_of_known`: A header that is known as strongly is not
  observed again.
* `HeaderTable.Consistent.exists_strongest_observe`: A header that is held keeps the
  strongest of its sources.
* `HeaderTable.Consistent.exists_strongest_observeAll`,
  `HeaderTable.Consistent.exists_mem_observeAll`: So it does through a sequence of
  observations, and so does one that is observed on the way.
* `HeaderTable.Consistent.not_mem_observe_of_displaced`: When a processed header gives
  way.
-/

namespace HeaderChain

namespace HeaderTable

variable {t : HeaderTable} {nonce : UInt64} {o x y : Observation} {os : List Observation}
  {p q : Provenance}

/-- The provenances that a header is known by: that of an observation of it, and those of
    further observations as far as they are of this header. -/
def sources (x : Observation) (os : List Observation) : Set Provenance :=
  {p | p = x.provenance ∨ ∃ o ∈ os, o.nonce = x.nonce ∧ o.hash = x.hash ∧ o.provenance = p}

-- One header in a table.

theorem Consistent.eq_of_header_eq (h : t.Consistent) (hx : x ∈ t.observations)
    (hy : y ∈ t.observations) (hnonce : x.nonce = y.nonce) (hhash : x.hash = y.hash) : x = y :=
  h.eq_of_hash_eq (mem_row.mpr ⟨hx, hnonce⟩) (mem_row.mpr ⟨hy, rfl⟩) hhash

/-- A header that is known as strongly is not observed again. -/
theorem Consistent.observe_eq_of_known (h : t.Consistent) (hy : y ∈ t.row o.nonce)
    (hhash : y.hash = o.hash) (hle : o.provenance ≤ y.provenance) : t.observe o = t := by
  rcases observe_cases t o with ⟨hnew, _⟩ | ⟨known, hknown, hhash', ⟨hsup, _⟩ | ⟨_, hsame⟩⟩
  · exact absurd hhash (hnew y hy)
  · rw [h.eq_of_hash_eq hy hknown (hhash.trans hhash'.symm)] at hle
    exact absurd hle (Provenance.not_le_of_supersedes hsup)
  · exact hsame

/-- Among the headers received there is none after an observation that was not there
    before or is what was observed. -/
theorem Regular.mem_observe_of_received (h : t.Regular) (ho : o.provenance = .received)
    (hy : y ∈ (t.observe o).observations) : y ∈ t.observations ∨ y = o := by
  rcases observe_cases t o with ⟨_, hadd⟩ | ⟨known, hknown, _, ⟨hsup, _⟩ | ⟨_, hsame⟩⟩
  · rw [hadd] at hy
    exact (mem_place.mp hy).symm.imp_left mem_of_mem_makeRoom
  · -- Only a proposal has less authority, and the table holds none.
    have hproposed := h.unproposed known (mem_row.mp hknown).1
    rw [ho] at hsup
    cases hp : known.provenance with
    | proposed => exact absurd hp hproposed
    | _ =>
        rw [hp] at hsup
        exact absurd hsup (by decide)
  · rw [hsame] at hy
    exact .inl hy

-- What a header is known by.

theorem isGreatest_sources_nil (x : Observation) : IsGreatest (sources x []) x.provenance := by
  refine ⟨.inl rfl, fun q hq => ?_⟩
  rcases hq with rfl | ⟨_, ho, _⟩
  · exact le_refl _
  · exact absurd ho List.not_mem_nil

/-- The strongest source is found one observation after the other. -/
theorem isGreatest_sources_cons (hp : IsGreatest (sources x [o]) p)
    (hq : IsGreatest (sources { x with provenance := p } os) q) :
    IsGreatest (sources x (o :: os)) q := by
  have hpq : p ≤ q := hq.2 (.inl rfl)
  constructor
  · rcases hq.1 with rfl | ⟨b, hb, hsame⟩
    · rcases hp.1 with hold | ⟨b, hb, hsame⟩
      · exact .inl hold
      · rw [List.mem_singleton.mp hb] at hsame
        exact .inr ⟨o, List.mem_cons_self, hsame⟩
    · exact .inr ⟨b, List.mem_cons_of_mem o hb, hsame⟩
  · rintro r (hr | ⟨b, hb, hsame⟩)
    · exact le_trans (hp.2 (.inl hr)) hpq
    · rcases List.mem_cons.mp hb with rfl | hb
      · exact le_trans (hp.2 (.inr ⟨b, List.mem_cons_self, hsame⟩)) hpq
      · exact hq.2 (.inr ⟨b, hb, hsame⟩)

/-- An observation of another header adds no source. -/
theorem isGreatest_sources_of_other (hother : ¬(o.nonce = x.nonce ∧ o.hash = x.hash)) :
    IsGreatest (sources x [o]) x.provenance := by
  refine ⟨.inl rfl, fun q hq => ?_⟩
  rcases hq with rfl | ⟨b, hb, hnonce, hhash, _⟩
  · exact le_refl _
  · rw [List.mem_singleton.mp hb] at hnonce hhash
    exact absurd ⟨hnonce, hhash⟩ hother

theorem isGreatest_sources_of_le (hp : p = x.provenance ∨
      (o.nonce = x.nonce ∧ o.hash = x.hash ∧ p = o.provenance))
    (hx : x.provenance ≤ p) (ho : o.provenance ≤ p) : IsGreatest (sources x [o]) p := by
  constructor
  · rcases hp with rfl | ⟨hnonce, hhash, rfl⟩
    · exact .inl rfl
    · exact .inr ⟨o, List.mem_cons_self, hnonce, hhash, rfl⟩
  · rintro q (rfl | ⟨b, hb, _, _, rfl⟩)
    · exact hx
    · rw [List.mem_singleton.mp hb]
      exact ho

/-- A header that is held and does not give way keeps the strongest of its sources. -/
theorem Consistent.exists_strongest_observe (h : t.Consistent) (hx : x ∈ t.observations)
    (hroom : x.provenance = .processed → o.provenance = .processed → o.nonce = x.nonce →
      o.hash = x.hash) :
    ∃ p, IsGreatest (sources x [o]) p ∧
      { x with provenance := p } ∈ (t.observe o).observations := by
  have hkept := mem_makeRoom hx hroom
  by_cases hsame : o.nonce = x.nonce ∧ o.hash = x.hash
  · -- Then it is the header that the observation finds.
    rcases hsame with ⟨hnonce, hhash⟩
    have hrow : x ∈ t.row o.nonce := mem_row.mpr ⟨hx, hnonce.symm⟩
    rcases observe_cases t o with
      ⟨hnew, _⟩ | ⟨known, hknown, hhash', ⟨hsup, hupgrade⟩ | ⟨hsup, hsame⟩⟩
    · exact absurd hhash.symm (hnew x hrow)
    · rw [← h.eq_of_hash_eq hrow hknown (hhash.symm.trans hhash'.symm)] at hsup
      refine ⟨o.provenance, isGreatest_sources_of_le (.inr ⟨hnonce, hhash, rfl⟩)
        (Provenance.le_of_supersedes hsup) (le_refl _), ?_⟩
      rw [hupgrade]
      refine List.mem_map.mpr ⟨x, hkept, if_pos ?_⟩
      simp only [sameHeader, hnonce, hhash, beq_self_eq_true, Bool.and_self]
    · rw [← h.eq_of_hash_eq hrow hknown (hhash.symm.trans hhash'.symm)] at hsup
      refine ⟨x.provenance, isGreatest_sources_of_le (.inl rfl) (le_refl _)
        (Provenance.le_of_not_supersedes hsup), ?_⟩
      rw [hsame]
      exact hx
  · refine ⟨x.provenance, isGreatest_sources_of_other hsame, ?_⟩
    rcases observe_cases t o with ⟨_, hadd⟩ | ⟨_, _, _, ⟨_, hupgrade⟩ | ⟨_, hidle⟩⟩
    · rw [hadd]
      exact mem_place.mpr (.inr hkept)
    · rw [hupgrade]
      refine List.mem_map.mpr ⟨x, hkept, if_neg fun hxo => hsame ?_⟩
      simp only [sameHeader, Bool.and_eq_true, beq_iff_eq] at hxo
      exact ⟨hxo.1.symm, hxo.2.symm⟩
    · rw [hidle]
      exact hx

/-- So it does through a sequence of observations none of which is processed. -/
theorem Consistent.exists_strongest_observeAll (h : t.Consistent) (hx : x ∈ t.observations)
    (hos : ∀ o ∈ os, o.provenance ≠ .processed) :
    ∃ p, IsGreatest (sources x os) p ∧
      { x with provenance := p } ∈ (t.observeAll os).observations := by
  induction os generalizing t x with
  | nil => exact ⟨x.provenance, isGreatest_sources_nil x, hx⟩
  | cons o rest ih =>
      rcases h.exists_strongest_observe hx
        (fun _ ho => absurd ho (hos o List.mem_cons_self)) with ⟨p, hp, hmem⟩
      rcases ih (h.observe o) hmem fun b hb => hos b (List.mem_cons_of_mem o hb) with
        ⟨q, hq, hmem'⟩
      exact ⟨q, isGreatest_sources_cons hp hq, hmem'⟩

/-- What is observed on the way is held in the end, and no less strongly. -/
theorem Consistent.exists_mem_observeAll (h : t.Consistent)
    (hos : ∀ o ∈ os, o.provenance ≠ .processed) (ho : o ∈ os) :
    ∃ y ∈ (t.observeAll os).observations,
      y.nonce = o.nonce ∧ y.hash = o.hash ∧ o.provenance ≤ y.provenance := by
  induction os generalizing t with
  | nil => exact absurd ho List.not_mem_nil
  | cons b rest ih =>
      have hrest : ∀ e ∈ rest, e.provenance ≠ .processed :=
        fun e he => hos e (List.mem_cons_of_mem b he)
      rcases List.mem_cons.mp ho with rfl | ho
      · rcases exists_mem_observe t o with ⟨y, hy, hnonce, hhash, hle⟩
        rcases (h.observe o).exists_strongest_observeAll hy hrest with ⟨p, hp, hmem⟩
        exact ⟨_, hmem, hnonce, hhash, le_trans hle (hp.2 (.inl rfl))⟩
      · exact ih (h.observe b) hrest ho

/-- A processed header gives way when another one of its nonce is processed. -/
theorem Consistent.not_mem_observe_of_displaced (h : t.Consistent) (hx : x ∈ t.observations)
    (hprocessed : x.provenance = .processed) (ho : o.provenance = .processed)
    (hnonce : o.nonce = x.nonce) (hhash : o.hash ≠ x.hash)
    (hy : y ∈ (t.observe o).observations) : ¬(y.nonce = x.nonce ∧ y.hash = x.hash) := by
  rintro ⟨hynonce, hyhash⟩
  rcases mem_observe hy with hold | ⟨_, hsame, _⟩
  · -- It would be the same header as before, beside the one processed now.
    have hyx := h.eq_of_header_eq hold hx hynonce hyhash
    rcases t.exists_processed_observe ho with ⟨z, hz, hzprocessed, hzhash⟩
    have hyrow : y ∈ (t.observe o).row o.nonce := mem_row.mpr ⟨hy, hynonce.trans hnonce.symm⟩
    have hyz := (h.observe o).eq_of_processed hyrow hz (hyx ▸ hprocessed) hzprocessed
    exact hhash (hzhash.symm.trans (hyz ▸ hyhash))
  · exact hhash (hsame.symm.trans hyhash)

theorem row_observeAll_of_ne (h : ∀ o ∈ os, o.nonce ≠ nonce) :
    (t.observeAll os).row nonce = t.row nonce := by
  induction os generalizing t with
  | nil => rfl
  | cons o rest ih =>
      have hrest := ih (t := t.observe o) fun b hb => h b (List.mem_cons_of_mem o hb)
      exact hrest.trans (row_observe_of_ne (h o List.mem_cons_self))

end HeaderTable

end HeaderChain

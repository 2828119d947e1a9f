import HeaderChain.Proofs.HeaderTable.Observe
import HeaderChain.Proofs.HeaderTable.Scan
import HeaderChain.Sample

/-!
# The Order of Arrival

Headers may be observed in any order.

An observation either puts a header behind its row or raises the provenance of
one that is there, and in doing so it may drop a header that was processed
before. So in general the order matters: of two processed headers of a nonce
the later one stays. `Coherent` excludes that, and asks that a header always
comes with the same round. Then making room drops nothing, and a table is
known by what has been observed: it holds each header once, with the strongest
of its provenances. `Gathers` is the invariant behind this. It names what the
table holds without saying where it stands, which is why it does not see the
order.

A check for forks does not see it either. What forks a row and what is left of
it depend on the contents of the row alone.

## Main definitions

* `HeaderTable.Coherent`: Observations that do not contradict each other.
* `HeaderTable.Strongest`: An observation of the most authority for its
  header.
* `HeaderTable.Gathers`: A table holds what was observed.

## Theorems

* `HeaderTable.Gathers.observe`: An observation is gathered.
* `HeaderTable.Gathers.mem_row_iff`: A row holds the strongest observations of
  its nonce.
* `HeaderTable.Consistent.fork?_congr`,
  `HeaderTable.Consistent.mem_row_scan_congr`: A check depends on the contents
  of the rows alone.
* `HeaderTable.arrival_order_irrelevant`: The order of arrival does not
  matter.
-/

namespace HeaderChain

namespace HeaderTable

variable {t u : HeaderTable} {nonce : UInt64} {o p : Observation} {os os' : List Observation}

/-- Observations that do not contradict each other. -/
structure Coherent (os : List Observation) : Prop where
  /-- A header has one round. -/
  round_eq : ∀ a ∈ os, ∀ b ∈ os, a.nonce = b.nonce → a.hash = b.hash → a.round = b.round
  /-- Of the headers of a nonce one at most is ever processed. -/
  single : ∀ a ∈ os, ∀ b ∈ os, a.nonce = b.nonce →
    a.provenance = .processed → b.provenance = .processed → a.hash = b.hash

/-- An observation of which there is none of the same header with more
    authority. -/
def Strongest (os : List Observation) (o : Observation) : Prop :=
  o ∈ os ∧ ∀ p ∈ os, p.nonce = o.nonce → p.hash = o.hash → p.provenance ≤ o.provenance

/-- A table holds nothing but what was observed, and every header with at least
    the authority of each observation of it. -/
structure Gathers (t : HeaderTable) (os : List Observation) : Prop where
  /-- What it holds was observed. -/
  observed : ∀ p ∈ t.observations, p ∈ os
  /-- What was observed it holds. -/
  held : ∀ a ∈ os, ∃ p ∈ t.observations,
    p.nonce = a.nonce ∧ p.hash = a.hash ∧ a.provenance ≤ p.provenance

theorem Coherent.mono (h : Coherent os') (hsub : ∀ a ∈ os, a ∈ os') : Coherent os where
  round_eq a ha b hb := h.round_eq a (hsub a ha) b (hsub b hb)
  single a ha b hb := h.single a (hsub a ha) b (hsub b hb)

theorem gathers_empty : empty.Gathers [] where
  observed _ hp := hp
  held _ ha := absurd ha List.not_mem_nil

/-- Among coherent observations nothing has to make room. -/
theorem Gathers.makeRoom_eq (h : t.Gathers os) (hc : Coherent (os ++ [o])) : t.makeRoom o = t := by
  unfold makeRoom
  by_cases ho : o.provenance.isProcessed = true
  · rw [if_pos ho]
    refine HeaderTable.ext (List.filter_eq_self.mpr fun p hp => ?_)
    -- A processed header that is held at this nonce is the one observed.
    by_cases hp' : p.nonce = o.nonce ∧ p.provenance = .processed
    · have hhash := hc.single p (List.mem_append_left _ (h.observed p hp)) o
        (List.mem_append_right _ List.mem_cons_self) hp'.1 hp'.2 (Provenance.isProcessed_iff.mp ho)
      rw [hhash, beq_self_eq_true, Bool.or_true]
    · have hfalse : (p.nonce == o.nonce && p.provenance.isProcessed) = false := by
        rw [← Bool.not_eq_true, Bool.and_eq_true, beq_iff_eq, Provenance.isProcessed_iff]
        exact hp'
      rw [hfalse, Bool.not_false, Bool.true_or]
  · rw [if_neg ho]

/-- A table gathers one observation more if it keeps or strengthens what was
    held, and holds the new one. -/
theorem Gathers.extend (h : t.Gathers os) (hfrom : ∀ p ∈ u.observations, p ∈ t.observations ∨ p = o)
    (hkept : ∀ p ∈ t.observations, p ∈ u.observations ∨
      (p.nonce = o.nonce ∧ p.hash = o.hash ∧ p.provenance ≤ o.provenance))
    (hnew : ∃ q ∈ u.observations,
      q.nonce = o.nonce ∧ q.hash = o.hash ∧ o.provenance ≤ q.provenance) :
    u.Gathers (os ++ [o]) where
  observed p hp := by
    rcases hfrom p hp with hp | rfl
    · exact List.mem_append_left _ (h.observed p hp)
    · exact List.mem_append_right _ List.mem_cons_self
  held a ha := by
    rcases hnew with ⟨q, hq, hnonce, hhash, hle⟩
    rcases List.mem_append.mp ha with ha | ha
    · rcases h.held a ha with ⟨p, hp, hpnonce, hphash, hple⟩
      rcases hkept p hp with hp | ⟨hnonce', hhash', hle'⟩
      · exact ⟨p, hp, hpnonce, hphash, hple⟩
      · -- The new observation stands in for the one it superseded.
        exact ⟨q, hq, hnonce.trans (hnonce'.symm.trans hpnonce),
          hhash.trans (hhash'.symm.trans hphash),
          le_trans hple (le_trans hle' hle)⟩
    · rw [List.mem_singleton.mp ha]
      exact ⟨q, hq, hnonce, hhash, hle⟩

/-- An observation that does not contradict the earlier ones is gathered. -/
theorem Gathers.observe (h : t.Gathers os) (ht : t.Consistent) (hc : Coherent (os ++ [o])) :
    (t.observe o).Gathers (os ++ [o]) := by
  have hroom := h.makeRoom_eq hc
  rcases observe_cases t o with
    ⟨_, hadd⟩ | ⟨known, hknown, hhash, ⟨hsup, hupgrade⟩ | ⟨hsup, hsame⟩⟩
  · -- A header that was not known is put into its place.
    rw [hadd, hroom]
    refine h.extend (fun p hp => ?_) (fun p hp => .inl (mem_place.mpr (.inr hp)))
      ⟨o, mem_place.mpr (.inl rfl), rfl, rfl, le_refl _⟩
    exact (mem_place.mp hp).symm
  · -- A known header becomes the one observed, since its round is the same.
    rw [hupgrade, hroom]
    rcases mem_row.mp hknown with ⟨hknownmem, hnonce⟩
    have hraised : ({ known with provenance := o.provenance } : Observation) = o := by
      have hround := hc.round_eq known (List.mem_append_left _ (h.observed known hknownmem)) o
        (List.mem_append_right _ List.mem_cons_self) hnonce hhash
      rw [hnonce, hround, hhash]
    have honly : ∀ p ∈ t.observations, sameHeader p o = true → p = known := by
      intro p hp hpo
      simp only [sameHeader, Bool.and_eq_true, beq_iff_eq] at hpo
      exact ht.eq_of_hash_eq (mem_row.mpr ⟨hp, hpo.1⟩) hknown (hpo.2.trans hhash.symm)
    have hknowno : sameHeader known o = true := by
      simp only [sameHeader, hnonce, hhash, beq_self_eq_true, Bool.and_self]
    have hmem : o ∈ (t.upgrade o).observations := by
      refine List.mem_map.mpr ⟨known, hknownmem, ?_⟩
      rw [if_pos hknowno, hraised]
    refine h.extend (fun p hp => ?_) (fun p hp => ?_) ⟨o, hmem, rfl, rfl, le_refl _⟩
    · rcases List.mem_map.mp hp with ⟨q, hq, rfl⟩
      by_cases hqo : sameHeader q o = true
      · rw [if_pos hqo, honly q hq hqo]
        exact .inr hraised
      · rw [if_neg hqo]
        exact .inl hq
    · by_cases hpo : sameHeader p o = true
      · rw [honly p hp hpo]
        exact .inr ⟨hnonce, hhash, Provenance.le_of_supersedes hsup⟩
      · exact .inl (List.mem_map.mpr ⟨p, hp, if_neg hpo⟩)
  · -- A known header of no less authority stands for the one observed.
    rw [hsame]
    rcases mem_row.mp hknown with ⟨hknownmem, hnonce⟩
    exact h.extend (fun p hp => .inl hp) (fun p hp => .inl hp)
      ⟨known, hknownmem, hnonce, hhash, Provenance.le_of_not_supersedes hsup⟩

/-- A table gathers a whole sequence of observations that do not contradict
    each other. -/
theorem Gathers.observeAll (h : t.Gathers os) (ht : t.Consistent) (hc : Coherent (os ++ os')) :
    (t.observeAll os').Gathers (os ++ os') := by
  induction os' generalizing t os with
  | nil =>
      rw [List.append_nil]
      exact h
  | cons o rest ih =>
      have hsplit : os ++ o :: rest = (os ++ [o]) ++ rest := by
        rw [List.append_assoc, List.singleton_append]
      rw [hsplit] at hc ⊢
      have hfirst : Coherent (os ++ [o]) := hc.mono fun a ha => List.mem_append_left rest ha
      exact ih (h.observe ht hfirst) (ht.observe o) hc

/-- A row holds the strongest observations of its nonce. -/
theorem Gathers.mem_row_iff (h : t.Gathers os) (ht : t.Consistent) (hc : Coherent os) :
    o ∈ t.row nonce ↔ o.nonce = nonce ∧ Strongest os o := by
  constructor
  · intro ho
    rcases mem_row.mp ho with ⟨hmem, hnonce⟩
    refine ⟨hnonce, h.observed o hmem, fun p hp hpnonce hphash => ?_⟩
    -- What the table holds of that header is this observation.
    rcases h.held p hp with ⟨q, hq, hqnonce, hqhash, hle⟩
    have hqrow := mem_row.mpr ⟨hq, (hqnonce.trans hpnonce).trans hnonce⟩
    rw [ht.eq_of_hash_eq hqrow ho (hqhash.trans hphash)] at hle
    exact hle
  · rintro ⟨hnonce, hmem, hstrongest⟩
    rcases h.held o hmem with ⟨q, hq, hqnonce, hqhash, hle⟩
    have hqo := h.observed q hq
    have hround := hc.round_eq q hqo o hmem hqnonce hqhash
    have hprovenance := le_antisymm (hstrongest q hqo hqnonce hqhash) hle
    have heq : q = o := by
      cases q
      cases o
      cases hqnonce
      cases hqhash
      cases hround
      cases hprovenance
      rfl
    exact mem_row.mpr ⟨heq ▸ hq, hnonce⟩

-- A check of two tables whose rows hold the same.

theorem isLeading_congr (h : ∀ o, o ∈ t.row nonce ↔ o ∈ u.row nonce) {c : Candidate} :
    IsLeading (t.rivals nonce) c ↔ IsLeading (u.rivals nonce) c := by
  simp only [IsLeading, mem_rivals, h]

/-- What forks a row depends on what it holds. -/
theorem Consistent.fork?_congr (ht : t.Consistent) (hu : u.Consistent)
    (h : ∀ o, o ∈ t.row nonce ↔ o ∈ u.row nonce) :
    fork? (t.row nonce) = fork? (u.row nonce) := by
  refine Option.ext fun c => ?_
  rw [ht.fork?_eq_some_iff, hu.fork?_eq_some_iff]
  simp only [h, isLeading_congr h]

/-- And so does what is left of it. -/
theorem Consistent.mem_row_scan_congr (ht : t.Consistent) (hu : u.Consistent)
    (h : ∀ o, o ∈ t.row nonce ↔ o ∈ u.row nonce) :
    o ∈ t.scan.2.row nonce ↔ o ∈ u.scan.2.row nonce := by
  have hfork := ht.fork?_congr hu h
  rcases hu.row_scan_cases nonce with hkept | ⟨own, hown, hprocessed, hnone, hleft⟩
  · rcases ht.row_scan_cases nonce with hkept' | ⟨own, hown, hprocessed, hnone, hleft⟩
    · rw [hkept, hkept']
      exact h o
    · rw [hleft, hu.row_scan_of_own ((h own).mp hown) hprocessed (hfork ▸ hnone)]
  · rw [hleft, ht.row_scan_of_own ((h own).mpr hown) hprocessed (hfork ▸ hnone)]

theorem Consistent.perm_row (ht : t.Consistent) (hu : u.Consistent)
    (h : ∀ o, o ∈ t.row nonce ↔ o ∈ u.row nonce) : (t.row nonce).Perm (u.row nonce) :=
  (List.perm_ext_iff_of_nodup (ht.nodup_row nonce) (hu.nodup_row nonce)).mpr h

/-- The order of arrival does not matter. However observations that do not
    contradict each other are ordered, every header is held once and with the
    strongest of its provenances, and a check finds and leaves the same. -/
theorem arrival_order_irrelevant (hc : Coherent os) (hperm : os.Perm os') :
    (∀ nonce o, o ∈ (empty.observeAll os).row nonce ↔ o.nonce = nonce ∧ Strongest os o) ∧
      (∀ o ∈ os, ∃ held ∈ (empty.observeAll os).row o.nonce, held.hash = o.hash ∧
        ∀ other ∈ (empty.observeAll os).row o.nonce, other.hash = o.hash → other = held) ∧
      (∀ nonce, ((empty.observeAll os).row nonce).Perm ((empty.observeAll os').row nonce)) ∧
      (empty.observeAll os).scan.1 = (empty.observeAll os').scan.1 ∧
      ∀ nonce, ((empty.observeAll os).scan.2.row nonce).Perm
        ((empty.observeAll os').scan.2.row nonce) := by
  have hc' : Coherent os' := hc.mono fun a ha => hperm.mem_iff.mpr ha
  have ht := consistent_empty.observeAll os
  have hu := consistent_empty.observeAll os'
  have hgathers : (empty.observeAll os).Gathers os := gathers_empty.observeAll consistent_empty hc
  have hgathers' : (empty.observeAll os').Gathers os' :=
    gathers_empty.observeAll consistent_empty hc'
  have hrow : ∀ nonce o, o ∈ (empty.observeAll os).row nonce ↔
      o ∈ (empty.observeAll os').row nonce := by
    intro nonce o
    rw [hgathers.mem_row_iff ht hc, hgathers'.mem_row_iff hu hc']
    simp only [Strongest, hperm.mem_iff]
  refine ⟨fun nonce o => hgathers.mem_row_iff ht hc, fun o ho => ?_,
    fun nonce => ht.perm_row hu (hrow nonce),
    verdict_congr fun nonce => ht.fork?_congr hu (hrow nonce),
    fun nonce => ht.scan.perm_row hu.scan fun o => ht.mem_row_scan_congr hu (hrow nonce)⟩
  rcases hgathers.held o ho with ⟨held, hheld, hnonce, hhash, _⟩
  have hmem := mem_row.mpr ⟨hheld, hnonce⟩
  exact ⟨held, hmem, hhash, fun other hother hsame =>
    ht.eq_of_hash_eq hother hmem (hsame.trans hhash.symm)⟩

/-- Two headers of one nonce and one of the next, some of them seen twice. -/
def mixedArrivals : List Observation :=
  [⟨1, 5, Sample.hash 5, .received⟩, ⟨2, 7, Sample.hash 2, .received⟩,
    ⟨1, 5, Sample.hash 5, .processed⟩, ⟨1, 6, Sample.hash 2, .received⟩,
    ⟨2, 7, Sample.hash 2, .notarized⟩]

/-- Seen the other way round they fill the rows differently, but fork the first
    nonce all the same. -/
theorem reversedArrivals_fork :
    Coherent mixedArrivals ∧ mixedArrivals.Perm mixedArrivals.reverse ∧
      (empty.observeAll mixedArrivals).row 1 ≠ (empty.observeAll mixedArrivals.reverse).row 1 ∧
      ((empty.observeAll mixedArrivals).row 1).Perm
        ((empty.observeAll mixedArrivals.reverse).row 1) ∧
      (empty.observeAll mixedArrivals).scan.1 = .forked 1 ⟨.observed 6, Sample.hash 2⟩ ∧
      (empty.observeAll mixedArrivals.reverse).scan.1
        = .forked 1 ⟨.observed 6, Sample.hash 2⟩ := by
  have hc : Coherent mixedArrivals := ⟨by decide, by decide⟩
  have hperm := (List.reverse_perm mixedArrivals).symm
  have h := arrival_order_irrelevant hc hperm
  have hforked : (empty.observeAll mixedArrivals).scan.1
      = .forked 1 ⟨.observed 6, Sample.hash 2⟩ := by decide
  exact ⟨hc, hperm, by decide, h.2.2.1 1, hforked, h.2.2.2.1.symm.trans hforked⟩

end HeaderTable

end HeaderChain

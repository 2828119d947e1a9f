import HeaderChain.HeaderTable.Forked
import HeaderChain.HeaderTable.Rows

/-!
# Sound Header Tables

What is true of the headers that a node keeps an eye on, whatever it sees.

The first part of the invariant is about the rows alone: no header stands
twice, one at most is processed, and none is a mere proposal. `Regular` says
so, and every observation keeps it. The second part relates the table to the
final checkpoint, and an observation may break it: the header seen may lie
where finality has already moved past it. Tidying up restores it, which
makes the table `Sound`, and from then on it can only be lost by moving
finality or by observing something new.

## Main definitions

* `HeaderTable.Regular`: What holds during an operation as well.
* `HeaderTable.Sound`: What holds between operations.
* `HeaderTable.Persists`: No observation breaks a property of headers.

## Theorems

* `HeaderTable.highest?_spec`: The highest nonce of a table.
* `HeaderTable.observe_cases`: The three ways in which a header is taken in.
* `HeaderTable.mem_observe`: Where the observations of a table come from.
* `HeaderTable.persists_source`, `HeaderTable.persists_place`: What is said of a
  header apart from its round, or apart from its provenance, persists.
* `HeaderTable.Regular.observe`: Observing keeps a table regular.
* `HeaderTable.mem_tidy`: What is left after tidying up.
* `HeaderTable.Regular.tidy`: Tidying up a regular table makes it sound.
* `HeaderTable.Sound.tidy_eq`: A sound table has nothing to tidy up.
* `HeaderTable.Sound.keep`: Dropping observations keeps a table sound.
-/

namespace HeaderChain

namespace HeaderTable

/-- The invariant of a table while a header is being taken in. -/
structure Regular (t : HeaderTable) : Prop extends Consistent t where
  /-- Proposals are not observations. -/
  unproposed : ∀ o ∈ t.observations, o.provenance ≠ .proposed

/-- The invariant of a table between two operations. -/
structure Sound (t : HeaderTable) (final : Checkpoint) : Prop extends Regular t where
  /-- Nothing lies below the final checkpoint. -/
  above : ∀ o ∈ t.observations, final.nonce ≤ o.nonce
  /-- No received header has gained more nonces than rounds since then. -/
  timely : ∀ o ∈ t.observations, o.provenance = .received →
    distance o.nonce final.nonce ≤ distance o.round final.round

/-- A table that holds nothing is sound. -/
theorem sound_empty (final : Checkpoint) : empty.Sound final where
  distinct _ := .nil
  single _ := .nil
  unproposed _ ho := absurd ho List.not_mem_nil
  above _ ho := absurd ho List.not_mem_nil
  timely _ ho := absurd ho List.not_mem_nil

/-- A nonce is listed if something is observed at it. -/
theorem mem_nonces {t : HeaderTable} {nonce : UInt64} :
    nonce ∈ t.nonces ↔ ∃ o ∈ t.observations, o.nonce = nonce := by
  rw [nonces, List.mem_eraseDups, List.mem_map]

theorem highest?_eq_none_iff {t : HeaderTable} : t.highest? = none ↔ t.observations = [] := by
  unfold highest?
  rw [Option.map_eq_none_iff, List.getLast?_eq_none_iff]

/-- The highest nonce of a table is that of its last observation. -/
theorem highest?_spec {t : HeaderTable} {n : UInt64} (h : t.highest? = some n) :
    (∃ o ∈ t.observations, o.nonce = n) ∧ ∀ o ∈ t.observations, o.nonce ≤ n := by
  rcases Option.map_eq_some_iff.mp h with ⟨l, hl, rfl⟩
  refine ⟨⟨l, List.mem_of_getLast? hl, rfl⟩, fun o ho => ?_⟩
  rcases List.getLast?_eq_some_iff.mp hl with ⟨front, hsplit⟩
  have hascending := t.ascending
  rw [hsplit, List.pairwise_append] at hascending
  rw [hsplit] at ho
  rcases List.mem_append.mp ho with hfront | hlast
  · exact hascending.2.2 o hfront l List.mem_cons_self
  · rw [List.mem_singleton.mp hlast]
    exact UInt64.le_refl _

theorem mem_of_mem_keep {t : HeaderTable} {test : Observation → Bool} {o : Observation}
    (h : o ∈ (t.keep test).observations) : o ∈ t.observations :=
  (List.mem_filter.mp h).1

theorem of_mem_keep {t : HeaderTable} {test : Observation → Bool} {o : Observation}
    (h : o ∈ (t.keep test).observations) : test o :=
  (List.mem_filter.mp h).2

-- Dropping observations keeps every part of the invariant.

theorem Consistent.keep {t : HeaderTable} (h : t.Consistent) (test : Observation → Bool) :
    (t.keep test).Consistent where
  distinct nonce := by
    rw [row_keep]
    exact (h.distinct nonce).filter test
  single nonce := by
    rw [row_keep]
    exact (h.single nonce).filter test

theorem Regular.keep {t : HeaderTable} (h : t.Regular) (test : Observation → Bool) :
    (t.keep test).Regular where
  toConsistent := h.toConsistent.keep test
  unproposed o ho := h.unproposed o (mem_of_mem_keep ho)

theorem Sound.keep {t : HeaderTable} {final : Checkpoint} (h : t.Sound final)
    (test : Observation → Bool) : (t.keep test).Sound final where
  toRegular := h.toRegular.keep test
  above o ho := h.above o (mem_of_mem_keep ho)
  timely o ho := h.timely o (mem_of_mem_keep ho)

/-- Tidying up drops what lies below the final checkpoint, and received headers
    that are premature. -/
theorem mem_tidy {t : HeaderTable} {final : Checkpoint} {o : Observation} :
    o ∈ ((t.dropBelow final.nonce).dropPremature final).observations ↔
      o ∈ t.observations ∧ final.nonce ≤ o.nonce ∧
        ¬(o.provenance = .received ∧ isPremature final o = true) := by
  simp only [dropPremature, dropBelow, keep, List.mem_filter, decide_eq_true_eq, Bool.not_eq_true',
    Bool.and_eq_false_imp, beq_iff_eq, not_and, Bool.not_eq_true, and_assoc]

/-- Tidying up a regular table makes it sound. -/
theorem Regular.tidy {t : HeaderTable} (h : t.Regular) (final : Checkpoint) :
    ((t.dropBelow final.nonce).dropPremature final).Sound final where
  toRegular := (h.keep _).keep _
  above o ho := (mem_tidy.mp ho).2.1
  timely o ho hreceived := by
    -- A premature header would have been dropped.
    refine Int.not_lt.mp fun hahead => ?_
    exact (mem_tidy.mp ho).2.2 ⟨hreceived, decide_eq_true hahead⟩

/-- A sound table has nothing to tidy up. -/
theorem Sound.tidy_eq {t : HeaderTable} {final : Checkpoint} (h : t.Sound final) :
    (t.dropBelow final.nonce).dropPremature final = t := by
  have hbelow : t.dropBelow final.nonce = t :=
    HeaderTable.ext (List.filter_eq_self.mpr fun o ho => decide_eq_true (h.above o ho))
  rw [hbelow]
  refine HeaderTable.ext (List.filter_eq_self.mpr fun o ho => ?_)
  simp only [Bool.not_eq_true', Bool.and_eq_false_imp, beq_iff_eq]
  exact fun hreceived => decide_eq_false (Int.not_lt.mpr (h.timely o ho hreceived))

/-- The three ways in which a header is taken in: it is new, or it is known
    and superseded, or it is known and nothing changes. -/
theorem observe_cases (t : HeaderTable) (o : Observation) :
    ((∀ p ∈ t.row o.nonce, p.hash ≠ o.hash) ∧ t.observe o = (t.makeRoom o).add o) ∨
      (∃ known ∈ t.row o.nonce, known.hash = o.hash ∧
        ((o.provenance.supersedes known.provenance ∧ t.observe o = (t.makeRoom o).upgrade o) ∨
          (¬ o.provenance.supersedes known.provenance ∧ t.observe o = t))) := by
  unfold observe
  cases hfind : (t.row o.nonce).find? (·.hash == o.hash) with
  | none =>
      refine .inl ⟨fun p hp => ?_, rfl⟩
      have hne := List.find?_eq_none.mp hfind p hp
      rwa [beq_iff_eq] at hne
  | some known =>
      have hhash := List.find?_some hfind
      rw [beq_iff_eq] at hhash
      refine .inr ⟨known, List.mem_of_find?_eq_some hfind, hhash, ?_⟩
      by_cases hup : o.provenance.supersedes known.provenance
      · exact .inl ⟨hup, if_pos hup⟩
      · exact .inr ⟨hup, if_neg hup⟩

theorem mem_of_mem_makeRoom {t : HeaderTable} {o p : Observation}
    (h : p ∈ (t.makeRoom o).observations) : p ∈ t.observations := by
  unfold makeRoom at h
  split at h
  · exact mem_of_mem_keep h
  · exact h

theorem Consistent.makeRoom {t : HeaderTable} (h : t.Consistent) (o : Observation) :
    (t.makeRoom o).Consistent := by
  unfold HeaderTable.makeRoom
  split
  · exact h.keep _
  · exact h

/-- After room was made for a processed header, no other is processed at its
    nonce. -/
theorem hash_eq_of_makeRoom {t : HeaderTable} {o p : Observation}
    (ho : o.provenance = .processed) (hp : p ∈ (t.makeRoom o).row o.nonce)
    (hprocessed : p.provenance = .processed) : p.hash = o.hash := by
  rcases mem_row.mp hp with ⟨hmem, hnonce⟩
  -- The test that room is made by drops a competitor.
  rw [makeRoom, ho] at hmem
  have htest := of_mem_keep hmem
  rw [hnonce, hprocessed] at htest
  simpa only [Provenance.isProcessed, beq_self_eq_true, Bool.and_self, Bool.not_true,
    Bool.false_or, beq_iff_eq] using htest

/-- Every observation was there before, or is of the header observed. -/
theorem mem_observe {t : HeaderTable} {o p : Observation} (h : p ∈ (t.observe o).observations) :
    p ∈ t.observations ∨
      (p.nonce = o.nonce ∧ p.hash = o.hash ∧ p.provenance = o.provenance) := by
  rcases observe_cases t o with ⟨_, hadd⟩ | ⟨_, _, _, ⟨_, hupgrade⟩ | ⟨_, hsame⟩⟩
  · rw [hadd] at h
    rcases mem_place.mp h with rfl | hold
    · exact .inr ⟨rfl, rfl, rfl⟩
    · exact .inl (mem_of_mem_makeRoom hold)
  · -- An upgrade touches the header observed and nothing else.
    rw [hupgrade] at h
    rcases List.mem_map.mp h with ⟨q, hq, rfl⟩
    by_cases hqo : sameHeader q o
    · rw [if_pos hqo]
      simp only [sameHeader, Bool.and_eq_true, beq_iff_eq] at hqo
      exact .inr ⟨hqo.1, hqo.2, rfl⟩
    · rw [if_neg hqo]
      exact .inl (mem_of_mem_makeRoom hq)
  · rw [hsame] at h
    exact .inl h

/-- A property of headers persists if no observation breaks it: once it holds of all
    that are held and of the one observed, it holds of all that are held afterwards. -/
def Persists (Q : Observation → Prop) : Prop :=
  ∀ ⦃t : HeaderTable⦄ ⦃o : Observation⦄, (∀ p ∈ t.observations, Q p) → Q o →
    ∀ p ∈ (t.observe o).observations, Q p

/-- What is said of the nonce, the hash and the provenance persists, because an upgrade
    takes all three from what is observed. -/
theorem persists_source (P : UInt64 → HeaderHash → Provenance → Prop) :
    Persists fun o => P o.nonce o.hash o.provenance := by
  intro t o h ho p hp
  rcases mem_observe hp with hold | ⟨hnonce, hhash, hprovenance⟩
  · exact h p hold
  · rw [hnonce, hhash, hprovenance]
    exact ho

theorem persists_provenance (P : Provenance → Prop) : Persists fun o => P o.provenance :=
  persists_source fun _ _ provenance => P provenance

/-- What is said of the place and the hash persists, because an upgrade changes
    neither. -/
theorem persists_place (P : UInt64 → UInt64 → HeaderHash → Prop) :
    Persists fun o => P o.nonce o.round o.hash := by
  intro t o h ho p hp
  rcases observe_cases t o with ⟨_, hadd⟩ | ⟨_, _, _, ⟨_, hupgrade⟩ | ⟨_, hsame⟩⟩
  · rw [hadd] at hp
    rcases mem_place.mp hp with rfl | hold
    · exact ho
    · exact h p (mem_of_mem_makeRoom hold)
  · rw [hupgrade] at hp
    rcases List.mem_map.mp hp with ⟨q, hq, rfl⟩
    have hold := h q (mem_of_mem_makeRoom hq)
    split <;> exact hold
  · rw [hsame] at hp
    exact h p hp

/-- What relates the headers of a row in pairs relates them after one is added,
    if it relates those of its row to it. -/
theorem pairwise_row_add {t : HeaderTable} {o : Observation} {R : Observation → Observation → Prop}
    {nonce : UInt64} (hrow : (t.row nonce).Pairwise R) (hnew : ∀ p ∈ t.row o.nonce, R p o) :
    ((t.add o).row nonce).Pairwise R := by
  rw [row_add]
  by_cases hnonce : o.nonce = nonce
  · rw [if_pos hnonce, List.pairwise_append]
    refine ⟨hrow, List.pairwise_singleton _ _, fun p hp q hq => ?_⟩
    rw [List.mem_singleton.mp hq]
    rw [← hnonce] at hp
    exact hnew p hp
  · -- The row of another nonce stays as it is.
    rw [if_neg hnonce, List.append_nil]
    exact hrow

/-- A new header keeps a table consistent. -/
theorem Consistent.add {t : HeaderTable} {o : Observation} (h : t.Consistent)
    (hnew : ∀ p ∈ t.row o.nonce, p.hash ≠ o.hash) : ((t.makeRoom o).add o).Consistent := by
  have hroom := h.makeRoom o
  have hfresh : ∀ p ∈ (t.makeRoom o).row o.nonce, p.hash ≠ o.hash := by
    intro p hp
    rcases mem_row.mp hp with ⟨hmem, hnonce⟩
    exact hnew p (mem_row.mpr ⟨mem_of_mem_makeRoom hmem, hnonce⟩)
  constructor
  · exact fun nonce => pairwise_row_add (hroom.distinct nonce) hfresh
  · -- If the new header is processed, no other of its row still is.
    refine fun nonce => pairwise_row_add (hroom.single nonce) fun p hp hboth => ?_
    exact hfresh p hp (hash_eq_of_makeRoom hboth.2 hp hboth.1)

/-- A new provenance keeps a table consistent. -/
theorem Consistent.upgrade {t : HeaderTable} (h : t.Consistent) (o : Observation) :
    ((t.makeRoom o).upgrade o).Consistent := by
  have hroom := h.makeRoom o
  constructor
  · -- Only provenances change, and hashes stay distinct.
    intro nonce
    rw [row_upgrade, List.pairwise_map]
    refine (hroom.distinct nonce).imp fun {a b} hab => ?_
    split <;> split <;> exact hab
  · intro nonce
    rw [row_upgrade, List.pairwise_map]
    refine ((hroom.distinct nonce).and (hroom.single nonce)).imp_of_mem
      fun {a b} ha hb hab hboth => ?_
    by_cases ho : o.provenance = .processed ∧ o.nonce = nonce
    · -- Whatever is processed in this row has the hash of the header observed.
      have hhash : ∀ p ∈ (t.makeRoom o).row nonce,
          (if sameHeader p o then { p with provenance := o.provenance } else p).provenance
            = .processed → p.hash = o.hash := by
        intro p hp hprocessed
        by_cases hpo : sameHeader p o
        · simp only [sameHeader, Bool.and_eq_true, beq_iff_eq] at hpo
          exact hpo.2
        · rw [if_neg hpo] at hprocessed
          rw [← ho.2] at hp
          exact hash_eq_of_makeRoom ho.1 hp hprocessed
      exact hab.1 ((hhash a ha hboth.1).trans (hhash b hb hboth.2).symm)
    · -- Nothing in this row becomes processed.
      have hold : ∀ p ∈ (t.makeRoom o).row nonce,
          (if sameHeader p o then { p with provenance := o.provenance } else p).provenance
            = .processed → p.provenance = .processed := by
        intro p hp hprocessed
        by_cases hpo : sameHeader p o
        · rw [if_pos hpo] at hprocessed
          simp only [sameHeader, Bool.and_eq_true, beq_iff_eq] at hpo
          exact absurd ⟨hprocessed, hpo.1.symm.trans (mem_row.mp hp).2⟩ ho
        · rw [if_neg hpo] at hprocessed
          exact hprocessed
      exact hab.2 ⟨hold a ha hboth.1, hold b hb hboth.2⟩

/-- Observing keeps a table consistent. -/
theorem Consistent.observe {t : HeaderTable} (h : t.Consistent) (o : Observation) :
    (t.observe o).Consistent := by
  rcases observe_cases t o with ⟨hnew, hadd⟩ | ⟨_, _, _, ⟨_, hupgrade⟩ | ⟨_, hsame⟩⟩
  · rw [hadd]
    exact h.add hnew
  · rw [hupgrade]
    exact h.upgrade o
  · rw [hsame]
    exact h

/-- Observing anything but a proposal keeps a table regular. -/
theorem Regular.observe {t : HeaderTable} {o : Observation} (h : t.Regular)
    (ho : o.provenance ≠ .proposed) : (t.observe o).Regular where
  toConsistent := h.toConsistent.observe o
  unproposed := persists_provenance (· ≠ .proposed) h.unproposed ho

end HeaderTable

end HeaderChain

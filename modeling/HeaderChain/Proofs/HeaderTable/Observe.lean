import HeaderChain.Proofs.HeaderTable.Sound
import HeaderChain.Proofs.Provenance
import Mathlib.Data.List.Nodup

/-!
# Observing Row by Row

What an observation does to the row of its nonce, and that it does nothing to
any other.

Taking in a header is defined on the table as a whole, where making room and
raising a provenance are filters and maps over everything that is held. Seen
from one row the same is a function of that row: `noted` makes room in it and
then either puts the header behind or raises the one that is there. Two tables
that agree on a row therefore agree on it after any number of observations,
whatever they hold of other nonces.

## Main definitions

* `HeaderTable.raised`: A header of a row after an observation of it.
* `HeaderTable.roomIn`, `HeaderTable.noted`: A row after room was made in it,
  and after an observation.
* `HeaderTable.observeAll`: A table after a sequence of observations.

## Theorems

* `HeaderTable.row_observe_self`, `HeaderTable.row_observe_of_ne`: An
  observation changes the row of its nonce and no other.
* `HeaderTable.exists_mem_observe`: An observed header is held, and no less
  strongly.
* `HeaderTable.mem_observe_of_fresh`: The first header of its nonce is added.
* `HeaderTable.row_observeAll_congr`: Rows that agree go on to agree.
* `HeaderTable.observeAll_perm`: Headers of distinct nonces may come in any order.
* `HeaderTable.Consistent.observeAll`: Observing keeps a table consistent.
-/

namespace HeaderChain

namespace HeaderTable

variable {t u : HeaderTable} {nonce : UInt64} {o : Observation}

/-- A header of a row after an observation, which raises the provenance of the
    one that it is of. -/
def raised (o p : Observation) : Observation :=
  if p.hash = o.hash then { p with provenance := o.provenance } else p

/-- A row after room was made for an observation. -/
def roomIn (row : List Observation) (o : Observation) : List Observation :=
  if o.provenance.isProcessed then
    row.filter fun p => !p.provenance.isProcessed || p.hash == o.hash
  else row

/-- A row after an observation of its nonce. -/
def noted (row : List Observation) (o : Observation) : List Observation :=
  match row.find? (·.hash == o.hash) with
  | none => roomIn row o ++ [o]
  | some known =>
    if o.provenance.supersedes known.provenance then (roomIn row o).map (raised o) else row

/-- The table after a sequence of observations. -/
def observeAll (t : HeaderTable) (os : List Observation) : HeaderTable :=
  os.foldl observe t

theorem roomIn_of_unprocessed (row : List Observation) (ho : o.provenance ≠ .processed) :
    roomIn row o = row :=
  if_neg fun hprocessed => ho (Provenance.isProcessed_iff.mp hprocessed)

theorem roomIn_sublist (row : List Observation) (o : Observation) :
    (roomIn row o).Sublist row := by
  unfold roomIn
  split
  · exact List.filter_sublist
  · exact List.Sublist.refl row

/-- A header makes room for itself. -/
theorem mem_roomIn_of_hash_eq {row : List Observation} {p : Observation} (hp : p ∈ row)
    (hhash : p.hash = o.hash) : p ∈ roomIn row o := by
  unfold roomIn
  split
  · exact List.mem_filter.mpr ⟨hp, by rw [beq_iff_eq.mpr hhash, Bool.or_true]⟩
  · exact hp

/-- The three ways in which a row changes: the header is new to it, or is known
    and superseded, or is known and nothing changes. -/
theorem noted_cases (row : List Observation) (o : Observation) :
    ((∀ p ∈ row, p.hash ≠ o.hash) ∧ noted row o = roomIn row o ++ [o]) ∨
      ∃ known ∈ row, known.hash = o.hash ∧
        ((o.provenance.supersedes known.provenance = true ∧
            noted row o = (roomIn row o).map (raised o)) ∨
          (¬ o.provenance.supersedes known.provenance = true ∧ noted row o = row)) := by
  unfold noted
  cases hfind : row.find? (·.hash == o.hash) with
  | none =>
      refine .inl ⟨fun p hp hhash => ?_, rfl⟩
      exact List.find?_eq_none.mp hfind p hp (beq_iff_eq.mpr hhash)
  | some known =>
      have hhash := List.find?_some hfind
      rw [beq_iff_eq] at hhash
      refine .inr ⟨known, List.mem_of_find?_eq_some hfind, hhash, ?_⟩
      by_cases hsup : o.provenance.supersedes known.provenance = true
      · exact .inl ⟨hsup, if_pos hsup⟩
      · exact .inr ⟨hsup, if_neg hsup⟩

theorem row_makeRoom_self (t : HeaderTable) (o : Observation) :
    (t.makeRoom o).row o.nonce = roomIn (t.row o.nonce) o := by
  unfold makeRoom roomIn
  cases o.provenance.isProcessed with
  | false => rfl
  | true =>
      -- All of the row has the nonce that the test asks for.
      rw [if_pos rfl, if_pos rfl, row_keep]
      refine List.filter_congr fun p hp => ?_
      rw [(mem_row.mp hp).2, beq_self_eq_true, Bool.true_and]

theorem row_makeRoom_of_ne (h : o.nonce ≠ nonce) : (t.makeRoom o).row nonce = t.row nonce := by
  unfold makeRoom
  cases o.provenance.isProcessed with
  | false => rfl
  | true =>
      rw [if_pos rfl, row_keep, List.filter_eq_self]
      intro p hp
      rw [(mem_row.mp hp).2, beq_eq_false_iff_ne.mpr h.symm, Bool.false_and, Bool.not_false,
        Bool.true_or]

/-- An observation changes the row of its nonce. -/
theorem row_observe_self (t : HeaderTable) (o : Observation) :
    (t.observe o).row o.nonce = noted (t.row o.nonce) o := by
  unfold observe noted
  cases (t.row o.nonce).find? (·.hash == o.hash) with
  | none => simp only [row_add, row_makeRoom_self, if_true]
  | some known =>
      by_cases hsupersedes : o.provenance.supersedes known.provenance = true
      · simp only [hsupersedes, if_true, row_upgrade]
        rw [← row_makeRoom_self]
        -- Within the row a header is known by its hash.
        refine List.map_congr_left fun p hp => ?_
        simp only [raised, sameHeader, (mem_row.mp hp).2, beq_self_eq_true, Bool.true_and,
          beq_iff_eq]
      · simp only [hsupersedes, Bool.false_eq_true, if_false]

/-- It changes no other row. -/
theorem row_observe_of_ne (h : o.nonce ≠ nonce) : (t.observe o).row nonce = t.row nonce := by
  unfold observe
  cases (t.row o.nonce).find? (·.hash == o.hash) with
  | none => simp only [row_add, row_makeRoom_of_ne h, if_neg h, List.append_nil]
  | some known =>
      by_cases hsupersedes : o.provenance.supersedes known.provenance = true
      · simp only [hsupersedes, if_true, row_upgrade, row_makeRoom_of_ne h]
        have hother : ∀ p ∈ t.row nonce,
            (if sameHeader p o then { p with provenance := o.provenance } else p) = p := by
          intro p hp
          simp only [sameHeader, (mem_row.mp hp).2, beq_eq_false_iff_ne.mpr h.symm,
            Bool.false_and, Bool.false_eq_true, if_false]
        rw [List.map_congr_left hother, List.map_id']
      · simp only [hsupersedes, Bool.false_eq_true, if_false]

theorem mem_makeRoom {p : Observation} (hp : p ∈ t.observations)
    (hroom : p.provenance = .processed → o.provenance = .processed → o.nonce = p.nonce →
      o.hash = p.hash) : p ∈ (t.makeRoom o).observations := by
  unfold makeRoom
  split
  · next ho =>
    refine List.mem_filter.mpr ⟨hp, ?_⟩
    rw [Bool.or_eq_true, Bool.not_eq_true', ← Bool.not_eq_true, Bool.and_eq_true, beq_iff_eq,
      beq_iff_eq, Provenance.isProcessed_iff]
    refine Decidable.or_iff_not_imp_left.mpr fun hgone => ?_
    rcases Decidable.not_not.mp hgone with ⟨hnonce, hprocessed⟩
    exact (hroom hprocessed (Provenance.isProcessed_iff.mp ho) hnonce.symm).symm
  · exact hp

/-- An observed header is held, and no less strongly than it was observed. -/
theorem exists_mem_observe (t : HeaderTable) (o : Observation) :
    ∃ p ∈ (t.observe o).observations,
      p.nonce = o.nonce ∧ p.hash = o.hash ∧ o.provenance ≤ p.provenance := by
  rcases observe_cases t o with
    ⟨_, hadd⟩ | ⟨known, hknown, hhash, ⟨_, hupgrade⟩ | ⟨hsup, hsame⟩⟩
  · rw [hadd]
    exact ⟨o, mem_place.mpr (.inl rfl), rfl, rfl, le_refl _⟩
  · rcases mem_row.mp hknown with ⟨hmem, hnonce⟩
    rw [hupgrade]
    refine ⟨{ known with provenance := o.provenance }, ?_, hnonce, hhash, le_refl _⟩
    have hroom := mem_makeRoom hmem (o := o) fun _ _ _ => hhash.symm
    refine List.mem_map.mpr ⟨known, hroom, if_pos ?_⟩
    simp only [sameHeader, hnonce, hhash, beq_self_eq_true, Bool.and_self]
  · rcases mem_row.mp hknown with ⟨hmem, hnonce⟩
    rw [hsame]
    exact ⟨known, hmem, hnonce, hhash, Provenance.le_of_not_supersedes hsup⟩

/-- The first header of its nonce is added. -/
theorem mem_observe_of_fresh {p : Observation} (hfresh : t.row o.nonce = []) :
    p ∈ (t.observe o).observations ↔ p ∈ t.observations ∨ p = o := by
  have hrow : ∀ u : HeaderTable, p ∈ u.observations ↔ p ∈ u.row p.nonce :=
    fun u => ⟨fun hp => mem_row.mpr ⟨hp, rfl⟩, fun hp => (mem_row.mp hp).1⟩
  rw [hrow, hrow t]
  by_cases hnonce : o.nonce = p.nonce
  · have hnoted : noted [] o = [o] := by
      unfold noted roomIn
      cases o.provenance.isProcessed <;> rfl
    rw [← hnonce, row_observe_self, hfresh, hnoted, List.mem_singleton]
    exact (or_iff_right List.not_mem_nil).symm
  · rw [row_observe_of_ne hnonce]
    exact (or_iff_left fun heq => hnonce (congrArg Observation.nonce heq.symm)).symm

theorem row_observe_congr (h : t.row nonce = u.row nonce) :
    (t.observe o).row nonce = (u.observe o).row nonce := by
  by_cases hnonce : o.nonce = nonce
  · subst hnonce
    rw [row_observe_self, row_observe_self, h]
  · rw [row_observe_of_ne hnonce, row_observe_of_ne hnonce, h]

/-- Tables that agree on a row agree on it after the same observations. -/
theorem row_observeAll_congr (os : List Observation) (h : t.row nonce = u.row nonce) :
    (t.observeAll os).row nonce = (u.observeAll os).row nonce := by
  induction os generalizing t u with
  | nil => exact h
  | cons o rest ih => exact ih (row_observe_congr h)

/-- Observations of different nonces may be made in either order. -/
theorem observe_comm {p : Observation} (hne : o.nonce ≠ p.nonce) :
    (t.observe o).observe p = (t.observe p).observe o := by
  refine ext_row fun nonce => ?_
  by_cases hnonce : p.nonce = nonce
  · have hother : (t.observe o).row nonce = t.row nonce :=
      row_observe_of_ne fun heq => hne (heq.trans hnonce.symm)
    rw [row_observe_congr hother, row_observe_of_ne fun heq => hne (heq.trans hnonce.symm)]
  · rw [row_observe_of_ne hnonce]
    exact row_observe_congr (row_observe_of_ne hnonce).symm

theorem observeAll_perm {os os' : List Observation} (hperm : os.Perm os')
    (hdistinct : (os.map Observation.nonce).Nodup) (t : HeaderTable) :
    t.observeAll os = t.observeAll os' := by
  refine hperm.foldl_eq' (fun o ho p hp t => ?_) t
  by_cases hsame : o = p
  · rw [hsame]
  · exact observe_comm fun hnonce => hsame (List.inj_on_of_nodup_map hdistinct ho hp hnonce)

theorem consistent_empty : empty.Consistent where
  distinct _ := .nil
  single _ := .nil

/-- Any sequence of observations keeps a table consistent. -/
theorem Consistent.observeAll (h : t.Consistent) (os : List Observation) :
    (t.observeAll os).Consistent := by
  induction os generalizing t with
  | nil => exact h
  | cons o rest ih => exact ih (h.observe o)

end HeaderTable

end HeaderChain

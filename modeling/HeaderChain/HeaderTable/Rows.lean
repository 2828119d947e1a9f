import HeaderChain.HeaderTable

/-!
# Rows of a Header Table

What the operations on a table do to the row of a nonce.

A table is determined by its rows, because the order of the nonces is not a
matter of choice. So an operation is known once its effect on a row is, and
nothing that is said about tables has to go back to the list behind them.

## Theorems

* `HeaderTable.ext_row`: Tables with the same rows are the same.
* `HeaderTable.row_keep`: What is kept of a row.
* `HeaderTable.row_add`: An added observation ends up behind its row.
* `HeaderTable.row_upgrade`: A new provenance changes nothing else.
-/

namespace HeaderChain

namespace HeaderTable

/-- An observation stands in the row of its own nonce and in no other. -/
theorem mem_row {t : HeaderTable} {nonce : UInt64} {o : Observation} :
    o ∈ t.row nonce ↔ o ∈ t.observations ∧ o.nonce = nonce := by
  simp only [row, List.mem_filter, beq_iff_eq]

/-- What is kept of a row are its observations that pass the test. -/
theorem row_keep (t : HeaderTable) (test : Observation → Bool) (nonce : UInt64) :
    (t.keep test).row nonce = (t.row nonce).filter test := by
  simp only [row, keep, List.filter_filter, Bool.and_comm]

/-- What a list holds of every nonce is all that it holds. -/
theorem mem_of_filter_nonce {as bs : List Observation} {o : Observation}
    (h : ∀ nonce, as.filter (·.nonce == nonce) = bs.filter (·.nonce == nonce)) (ho : o ∈ as) :
    o ∈ bs := by
  have hrow : o ∈ as.filter (·.nonce == o.nonce) := List.mem_filter.mpr ⟨ho, beq_self_eq_true _⟩
  rw [h] at hrow
  exact (List.mem_filter.mp hrow).1

/-- Lists by ascending nonce are the same if they hold the same of every
    nonce. The least nonce has to come first in both, so the heads agree, and
    taking them off leaves lists of the same kind. -/
theorem eq_of_filter_nonce {as bs : List Observation}
    (ha : as.Pairwise fun a b => a.nonce ≤ b.nonce)
    (hb : bs.Pairwise fun a b => a.nonce ≤ b.nonce)
    (h : ∀ nonce, as.filter (·.nonce == nonce) = bs.filter (·.nonce == nonce)) : as = bs := by
  induction as generalizing bs with
  | nil =>
    cases bs with
    | nil => rfl
    | cons b bs =>
      exact absurd (mem_of_filter_nonce (fun n => (h n).symm) (.head bs)) List.not_mem_nil
  | cons a as ih =>
    cases bs with
    | nil => exact absurd (mem_of_filter_nonce h (.head as)) List.not_mem_nil
    | cons b bs =>
      have ha' := List.pairwise_cons.mp ha
      have hb' := List.pairwise_cons.mp hb
      -- Neither head can come after the other.
      have hab : a.nonce ≤ b.nonce := by
        rcases List.mem_cons.mp (mem_of_filter_nonce (fun n => (h n).symm) (.head bs)) with
          hmem | hmem
        · exact hmem ▸ UInt64.le_refl _
        · exact ha'.1 b hmem
      have hba : b.nonce ≤ a.nonce := by
        rcases List.mem_cons.mp (mem_of_filter_nonce h (.head as)) with hmem | hmem
        · exact hmem ▸ UInt64.le_refl _
        · exact hb'.1 a hmem
      have hhead := h a.nonce
      simp only [List.filter_cons, UInt64.le_antisymm hba hab, beq_self_eq_true, if_true] at hhead
      have heq : a = b := (List.cons.inj hhead).1
      subst heq
      refine congrArg (a :: ·) (ih ha'.2 hb'.2 fun nonce => ?_)
      have hrest := h nonce
      simp only [List.filter_cons] at hrest
      split at hrest
      · exact (List.cons.inj hrest).2
      · exact hrest

/-- Tables with the same rows are the same. -/
theorem ext_row {t u : HeaderTable} (h : ∀ nonce, t.row nonce = u.row nonce) : t = u :=
  HeaderTable.ext (eq_of_filter_nonce t.ascending u.ascending h)

/-- An observation put into its place comes last among those of its
    nonce. -/
theorem filter_place {o : Observation} {os : List Observation} (nonce : UInt64)
    (h : os.Pairwise fun a b => a.nonce ≤ b.nonce) :
    (place o os).filter (·.nonce == nonce)
      = os.filter (·.nonce == nonce) ++ if o.nonce = nonce then [o] else [] := by
  induction os with
  | nil => by_cases ho : o.nonce = nonce <;> simp [place, ho]
  | cons p rest ih =>
    have hp := List.pairwise_cons.mp h
    unfold place
    split
    · by_cases hpn : p.nonce = nonce <;> simp [hpn, ih hp.2]
    · next hlt =>
      -- All that follows lies above the nonce of the observation.
      have habove : ∀ q ∈ p :: rest, o.nonce < q.nonce := by
        intro q hq
        rcases List.mem_cons.mp hq with rfl | hq
        · exact UInt64.not_le.mp hlt
        · exact UInt64.lt_of_lt_of_le (UInt64.not_le.mp hlt) (hp.1 q hq)
      by_cases ho : o.nonce = nonce
      · have hnone : (p :: rest).filter (·.nonce == nonce) = [] := by
          refine List.filter_eq_nil_iff.mpr fun q hq => ?_
          have hne := UInt64.ne_of_lt (habove q hq)
          simpa only [beq_iff_eq, ← ho] using Ne.symm hne
        rw [List.filter_cons, hnone]
        simp [ho]
      · rw [List.filter_cons]
        simp [ho]

/-- An added observation ends up behind its row, and no other row
    changes. -/
theorem row_add (t : HeaderTable) (o : Observation) (nonce : UInt64) :
    (t.add o).row nonce = t.row nonce ++ if o.nonce = nonce then [o] else [] :=
  filter_place nonce t.ascending

/-- A new provenance changes nothing else about a row. -/
theorem row_upgrade (t : HeaderTable) (o : Observation) (nonce : UInt64) :
    (t.upgrade o).row nonce = (t.row nonce).map fun p =>
      if sameHeader p o then { p with provenance := o.provenance } else p := by
  simp only [row, upgrade, List.filter_map]
  congr 1
  refine List.filter_congr fun p _ => ?_
  simp only [Function.comp]
  split <;> rfl

end HeaderTable

end HeaderChain

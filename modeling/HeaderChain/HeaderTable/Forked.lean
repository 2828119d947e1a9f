import HeaderChain.HeaderTable

/-!
# Forked Nonces

What it means for a nonce to be forked, apart from how a table is checked
for it.

A check folds over a row twice and compares two results. Here the same is
said of the row as a whole: the node's own header stands at the nonce, so
does at least one other, and each of the others is ranked after it. Both
ways of speaking suppose a row in which no header stands twice and the node
has processed no more than one, which is what `Consistent` asks for.

## Main definitions

* `HeaderTable.Consistent`: No header stands twice, and of each nonce the
  node has processed one at most.
* `HeaderTable.Forked`: A nonce is forked.
-/

namespace HeaderChain

namespace HeaderTable

/-- No header stands twice in a row, and the node has processed no more than
    one of each. -/
structure Consistent (t : HeaderTable) : Prop where
  /-- The headers of a nonce have different hashes. -/
  distinct : ∀ nonce, (t.row nonce).Pairwise fun a b => a.hash ≠ b.hash
  /-- Of two headers of a nonce, one at most is processed. -/
  single : ∀ nonce, (t.row nonce).Pairwise fun a b =>
    ¬(a.provenance = .processed ∧ b.provenance = .processed)

/-- A nonce is forked if the node's own header has at least one other beside
    it and every other is ranked after it. -/
def Forked (t : HeaderTable) (nonce : UInt64) : Prop :=
  ∃ own ∈ t.row nonce, own.provenance = .processed ∧ (∃ o ∈ t.row nonce, o ≠ own) ∧
    ∀ o ∈ t.row nonce, o ≠ own → Candidate.of own < Candidate.of o

instance (t : HeaderTable) (nonce : UInt64) : Decidable (t.Forked nonce) :=
  inferInstanceAs (Decidable (∃ own ∈ t.row nonce, _))

end HeaderTable

end HeaderChain

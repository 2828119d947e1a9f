import HeaderChain.Hash
import HeaderChain.Provenance

/-!
# Fork Choice

How competing headers of one nonce are ranked.

Among the headers that the node has not processed itself, all honest nodes
are to agree on one candidate: the least in rank, where a notarized header
comes before every other and the others are ranked by round, and among
those of one rank the least in hash. The node's own header is then forked if
the candidate is ranked after it, or is ranked the same and has the greater
hash. The two comparisons go in opposite directions on purpose.

## Main definitions

* `Observation`: A header seen at some nonce.
* `Rank`, `Candidate`: What headers are ranked by.
* `Candidate.better`, `leading?`: The candidate of a list of observations.
* `signals`: A candidate forks the node's own header.
* `Verdict`: What a check for forks finds.
-/

namespace HeaderChain

/-- A header as it was seen. -/
structure Observation where
  /-- Its nonce. -/
  nonce : UInt64
  /-- Its round. -/
  round : UInt64
  /-- Its hash. -/
  hash : HeaderHash
  /-- Where the node learnt of it. -/
  provenance : Provenance
  deriving DecidableEq

/-- The rank of a header in fork choice. -/
inductive Rank
  /-- Certified by a parent chain, which is stronger evidence than anything
      seen locally. -/
  | notarized
  /-- Seen in some other way, in the given round. -/
  | observed (round : UInt64)
  deriving DecidableEq

namespace Rank

/-- Notarized headers come first, then the others by round. -/
def before : Rank → Rank → Bool
  | .notarized, .observed _ => true
  | .observed a, .observed b => decide (a < b)
  | _, .notarized => false

instance : LT Rank :=
  ⟨fun a b => before a b = true⟩

instance : DecidableLT Rank :=
  fun a b => inferInstanceAs (Decidable (before a b = true))

/-- The rank of an observation. -/
def of (o : Observation) : Rank :=
  match o.provenance with
  | .notarized => .notarized
  | _ => .observed o.round

end Rank

/-- What headers of one nonce are compared by. -/
structure Candidate where
  /-- The rank. -/
  rank : Rank
  /-- The hash, which breaks ties. -/
  hash : HeaderHash
  deriving DecidableEq

namespace Candidate

/-- The candidate that an observation is. -/
def of (o : Observation) : Candidate :=
  ⟨Rank.of o, o.hash⟩

/-- Candidates are ordered by rank, and by hash within a rank. -/
instance : LT Candidate :=
  ⟨fun a b => a.rank < b.rank ∨ (a.rank = b.rank ∧ a.hash < b.hash)⟩

instance : DecidableLT Candidate :=
  fun a b => inferInstanceAs
    (Decidable (a.rank < b.rank ∨ (a.rank = b.rank ∧ a.hash < b.hash)))

/-- The better of the candidate so far and one more observation. -/
def better (current : Option Candidate) (o : Observation) : Candidate :=
  match current with
  | none => Candidate.of o
  | some current => if Candidate.of o < current then Candidate.of o else current

end Candidate

/-- The candidate of a list of observations, if there are any. -/
def leading? (observations : List Observation) : Option Candidate :=
  observations.foldl (fun current o => some (Candidate.better current o)) none

/-- Whether the candidate forks the node's own header. -/
def signals (own : Observation) (candidate : Option Candidate) : Bool :=
  match candidate with
  | none => false
  | some candidate => decide (Candidate.of own < candidate)

/-- What a check for forks finds. -/
inductive Verdict
  /-- No fork. -/
  | clear
  /-- The lowest nonce at which the node's own header is forked, and the
      candidate that forks it. -/
  | forked (nonce : UInt64) (candidate : Candidate)
  /-- A fork declared by the node itself, which has to synchronise anew. -/
  | forced
  deriving DecidableEq

namespace Verdict

/-- Whether there is a fork. -/
def isFork : Verdict → Bool
  | .clear => false
  | _ => true

/-- The nonce of the fork, if it has one. -/
def nonce? : Verdict → Option UInt64
  | .forked nonce _ => some nonce
  | _ => none

/-- The candidate of the fork, if it has one. -/
def candidate? : Verdict → Option Candidate
  | .forked _ candidate => some candidate
  | _ => none

end Verdict

end HeaderChain

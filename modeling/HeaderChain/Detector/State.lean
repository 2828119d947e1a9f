import HeaderChain.Header
import HeaderChain.HeaderTable

/-!
# State of a Fork Detector

What a node keeps to watch over its chain, and what it is given from
outside.

A detector keeps the headers seen at recent nonces, the checkpoints of its
chain and an estimate of the tip. The round, the blacklist and the check of
seeds belong to the world around it and are given with each header that is
offered.

## Main definitions

* `Ancestor`: A block that a parent chain has certified.
* `Surroundings`: What the world around a detector answers.
* `Offer`: A header as it is offered.
* `Detector`: The state of the watch.
-/

namespace HeaderChain

/-- An ancestor that a parent chain has certified. -/
structure Ancestor where
  /-- Its nonce. -/
  nonce : UInt64
  /-- Its round. -/
  round : UInt64
  /-- Its hash. -/
  hash : HeaderHash
  deriving DecidableEq

namespace Ancestor

/-- The header of that hash as an ancestor. -/
def ofHeader (header : Header) (hash : HeaderHash) : Ancestor :=
  ⟨header.nonce, header.round, hash⟩

/-- The observation that an ancestor is. -/
def observation (a : Ancestor) : Observation :=
  ⟨a.nonce, a.round, a.hash, .notarized⟩

/-- The checkpoint that an ancestor is. -/
def checkpoint (a : Ancestor) : Checkpoint :=
  ⟨a.nonce, a.round, some a.hash⟩

end Ancestor

/-- What the world around a detector answers while a header is offered. -/
structure Surroundings where
  /-- The current round. -/
  round : Int64
  /-- Whether nothing may be proposed on top of a header. -/
  blacklisted : HeaderHash → Bool
  /-- Whether the seed of a proposed header verifies. -/
  acceptsSeed : Header → Bool

/-- A header as it is offered. Both it and its hash may be missing. -/
structure Offer where
  /-- The header. -/
  header : Option Header
  /-- Its hash. -/
  hash : Option HeaderHash
  /-- Where the node learnt of it. -/
  provenance : Provenance
  /-- Ancestors that a processed header makes final. -/
  ancestors : List Ancestor

/-- The state of the watch over a chain. -/
structure Detector where
  /-- The headers seen. -/
  table : HeaderTable
  /-- The checkpoints. -/
  history : History
  /-- The estimate of the highest nonce of the chain. -/
  tip : UInt64
  /-- The round of the header processed last. -/
  lastBlockRound : UInt64
  /-- The nonce of the header proposed last. -/
  lastProposed : UInt64
  /-- Whether the node has declared a fork. -/
  forced : Bool
  deriving DecidableEq

namespace Detector

/-- A watch that starts with the chain. -/
def genesis : Detector :=
  { table := .empty, history := .genesis, tip := 0, lastBlockRound := 0, lastProposed := 0
    forced := false }

/-- The final checkpoint. -/
def final (d : Detector) : Checkpoint :=
  d.history.final

/-- The last checkpoint. -/
def last (d : Detector) : Checkpoint :=
  d.history.last

end Detector

end HeaderChain

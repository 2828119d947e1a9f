import HeaderChain.Hash

/-!
# Block Headers

Headers of shard blocks and of metachain blocks.

Both kinds share a core: their place in the chain, the links to their
predecessor and the signatures they carry. Everything that judges a header
looks at the core, the shard it belongs to and nothing else, so the two
kinds are one type with accessors.

A header may carry a proof that a quorum of validators agreed on its
predecessor. The proof names that predecessor by hash, epoch, nonce, round
and shard.

## Main definitions

* `QuorumProof`: A quorum's agreement on a header.
* `HeaderCore`: What every header has.
* `ShardHeader`, `MetaHeader`, `Header`: The two kinds and their sum.
* `Header.isSigned`: At least one signer bit is set.
-/

namespace HeaderChain

/-- An aggregated signature by which a quorum of validators agreed on a
    header. -/
structure QuorumProof where
  /-- Which validators contributed, one bit each. -/
  signers : List UInt8
  /-- The aggregated signature. -/
  signature : List UInt8
  /-- The hash of the header agreed on. -/
  headerHash : HeaderHash
  /-- Its epoch. -/
  epoch : UInt32
  /-- Its nonce. -/
  nonce : UInt64
  /-- Its round. -/
  round : UInt64
  /-- Its shard. -/
  shard : UInt32
  /-- Whether it is the first of its epoch. -/
  startsEpoch : Bool
  deriving DecidableEq

/-- What every header has, whatever its kind. -/
structure HeaderCore where
  /-- The height in the chain. -/
  nonce : UInt64
  /-- The round in which the header was made. -/
  round : UInt64
  /-- The epoch of that round. -/
  epoch : UInt32
  /-- The hash of the predecessor. -/
  prevHash : HeaderHash
  /-- The random seed of the predecessor. -/
  prevSeed : List UInt8
  /-- The random seed of this header. -/
  seed : List UInt8
  /-- Which validators signed, one bit each. -/
  signers : List UInt8
  /-- The signature. -/
  signature : List UInt8
  /-- A quorum's agreement on the predecessor, once such proofs are in
      use. -/
  prevProof : Option QuorumProof
  deriving DecidableEq

/-- The header of a shard block. -/
structure ShardHeader where
  /-- The shard. -/
  shard : UInt32
  /-- The common part. -/
  core : HeaderCore
  deriving DecidableEq

/-- The header of a metachain block. -/
structure MetaHeader where
  /-- The common part. -/
  core : HeaderCore
  /-- The shard headers that the block certifies. -/
  certified : List HeaderHash
  deriving DecidableEq

/-- A header of either kind. -/
inductive Header
  /-- A shard header. -/
  | shard (header : ShardHeader)
  /-- A metachain header. -/
  | metachain (header : MetaHeader)
  deriving DecidableEq

/-- The shard number that metachain headers go by. -/
def metachainShard : UInt32 :=
  0xFFFFFFFF

namespace HeaderCore

/-- A core without content. -/
def blank : HeaderCore :=
  { nonce := 0, round := 0, epoch := 0, prevHash := Hash.zero, prevSeed := [], seed := []
    signers := [], signature := [], prevProof := none }

end HeaderCore

namespace Header

/-- The common part. -/
def core : Header → HeaderCore
  | .shard header => header.core
  | .metachain header => header.core

/-- The height in the chain. -/
def nonce (header : Header) : UInt64 :=
  header.core.nonce

/-- The round in which the header was made. -/
def round (header : Header) : UInt64 :=
  header.core.round

/-- The epoch of that round. -/
def epoch (header : Header) : UInt32 :=
  header.core.epoch

/-- The shard the header belongs to. -/
def shardNumber : Header → UInt32
  | .shard header => header.shard
  | .metachain _ => metachainShard

/-- The hash of the predecessor. -/
def prevHash (header : Header) : HeaderHash :=
  header.core.prevHash

/-- The random seed of the predecessor. -/
def prevSeed (header : Header) : List UInt8 :=
  header.core.prevSeed

/-- The random seed. -/
def seed (header : Header) : List UInt8 :=
  header.core.seed

/-- Which validators signed, one bit each. -/
def signers (header : Header) : List UInt8 :=
  header.core.signers

/-- A quorum's agreement on the predecessor, if the header carries one. -/
def prevProof (header : Header) : Option QuorumProof :=
  header.core.prevProof

/-- A header counts as signed once one signer bit is set. -/
def isSigned (header : Header) : Bool :=
  header.signers.any (· != 0)

/-- Whether the header has its own seed and that of its predecessor. -/
def hasSeeds (header : Header) : Bool :=
  !header.seed.isEmpty && !header.prevSeed.isEmpty

end Header

end HeaderChain

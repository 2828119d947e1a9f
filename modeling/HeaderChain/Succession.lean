import HeaderChain.FlagSchedule
import HeaderChain.Hasher
import HeaderChain.Rejection

/-!
# Succession

Whether a header is built directly on top of another.

The checks run in a fixed order and the first violation counts: the round,
the nonce, the hash of the predecessor, its seed, and, once the feature is
active in the predecessor's epoch, the quorum's proof that the header
carries for it. How a proof is verified is up to a verifier; the one in use
checks that the proof names exactly the predecessor and is signed, since the
signature itself was verified before the proof was attached.

## Main definitions

* `Violation`: Why a header does not succeed another.
* `Validator`: A way to hash headers, a schedule of features and a verifier.
* `Validator.proofDue`: Everything but the verification of the proof.
* `Validator.check`: The whole check.
* `QuorumProof.bindingFault?`: The first thing in which a proof and a
  header differ.
* `ProofVerifier.bound`: The verifier in use.
-/

namespace HeaderChain

/-- Why a proof does not stand for a header. -/
inductive BindingFault
  /-- The header could not be hashed. -/
  | unhashable (fault : HashingFault)
  /-- The proof names another hash. -/
  | wrongHash (claimed actual : HeaderHash)
  /-- The proof names another epoch. -/
  | wrongEpoch (claimed actual : UInt32)
  /-- The proof names another nonce. -/
  | wrongNonce (claimed actual : UInt64)
  /-- The proof names another round. -/
  | wrongRound (claimed actual : UInt64)
  /-- The proof names another shard. -/
  | wrongShard (claimed actual : UInt32)
  /-- The proof has no signature. -/
  | noSignature
  /-- The proof has no signers. -/
  | noSigners
  deriving DecidableEq

/-- The wording of a difference between a proof and a header. -/
def BindingFault.message : BindingFault → String
  | .unhashable fault => fault.message
  | .wrongHash claimed actual =>
    "proof is for header " ++ claimed.toHex ++ ", expected " ++ actual.toHex
  | .wrongEpoch claimed actual => differs "epoch" claimed.toNat actual.toNat
  | .wrongNonce claimed actual => differs "nonce" claimed.toNat actual.toNat
  | .wrongRound claimed actual => differs "round" claimed.toNat actual.toNat
  | .wrongShard claimed actual => differs "shard" claimed.toNat actual.toNat
  | .noSignature => "proof has no aggregated signature"
  | .noSigners => "proof has no signers"
where
  /-- A number of the proof is not that of the header. -/
  differs (what : String) (claimed actual : Nat) : String :=
    "proof " ++ what ++ " " ++ Decimal.ofNat claimed ++ " does not match header " ++ what ++ " " ++
      Decimal.ofNat actual

/-- The first thing in which a proof and a header of the given hash differ,
    or what the proof lacks. -/
def QuorumProof.bindingFault? (proof : QuorumProof) (hash : HeaderHash) (header : Header) :
    Option BindingFault :=
  if proof.headerHash ≠ hash then some (.wrongHash proof.headerHash hash)
  else if proof.epoch ≠ header.epoch then some (.wrongEpoch proof.epoch header.epoch)
  else if proof.nonce ≠ header.nonce then some (.wrongNonce proof.nonce header.nonce)
  else if proof.round ≠ header.round then some (.wrongRound proof.round header.round)
  else if proof.shard ≠ header.shardNumber then some (.wrongShard proof.shard header.shardNumber)
  else if proof.signature.isEmpty then some .noSignature
  else if proof.signers.all (· == 0) then some .noSigners
  else none

/-- Checks that a proof names exactly the given header and is signed. -/
def QuorumProof.binds (hasher : HeaderHasher) (proof : QuorumProof) (header : Header) :
    Except BindingFault Unit :=
  match hasher.hash header with
  | .error fault => .error (.unhashable fault)
  | .ok hash =>
    match proof.bindingFault? hash header with
    | some fault => .error fault
    | none => .ok ()

/-- A way to verify that a proof stands for a header. A refusal is given in
    words. -/
abbrev ProofVerifier :=
  QuorumProof → Header → Except String Unit

/-- The verifier that checks the binding between proof and header. -/
def ProofVerifier.bound (hasher : HeaderHasher) : ProofVerifier :=
  fun proof header =>
    match proof.binds hasher header with
    | .error fault => .error fault.message
    | .ok () => .ok ()

/-- Why a header does not succeed another. -/
inductive Violation
  /-- One of the two headers is missing. -/
  | noHeader
  /-- The round does not advance. -/
  | roundNotLater (previous current : UInt64)
  /-- The nonce is not the next one, which does not exist after the greatest
      word. -/
  | wrongNonce (expected : Option UInt64) (got : UInt64)
  /-- The predecessor could not be hashed. -/
  | unhashable (fault : HashingFault)
  /-- The header names another predecessor. -/
  | wrongPrevHash (expected got : HeaderHash)
  /-- The header names another seed for its predecessor. -/
  | wrongPrevSeed (expected got : List UInt8)
  /-- The header carries no proof for its predecessor. -/
  | noProof
  /-- The proof for the predecessor does not verify. -/
  | badProof (reason : String)
  deriving DecidableEq

namespace Violation

/-- The wording of a violation. -/
def message : Violation → String
  | .noHeader => "nil block header"
  | .roundNotLater previous current =>
    "round does not advance: previous " ++ Decimal.ofNat previous.toNat ++ ", current " ++
      Decimal.ofNat current.toNat
  | .wrongNonce expected got =>
    "wrong nonce: expected " ++
      (match expected with
        | none => "none"
        | some n => Decimal.ofNat n.toNat) ++
      ", got " ++ Decimal.ofNat got.toNat
  | .unhashable fault => fault.message
  | .wrongPrevHash expected got =>
    "previous hash mismatch: expected " ++ expected.toHex ++ ", got " ++ got.toHex
  | .wrongPrevSeed expected got =>
    "random seed mismatch: expected " ++ Hex.encode expected ++ ", got " ++ Hex.encode got
  | .noProof => "missing or invalid proof for previous header: no proof attached"
  | .badProof reason => "missing or invalid proof for previous header: " ++ reason

/-- The kind of a violation. -/
def kind : Violation → RejectionKind
  | .noHeader => .malformedInput
  | .unhashable _ => .malformedInput
  | .roundNotLater _ _ => .temporalOrdering
  | .wrongNonce _ _ => .temporalOrdering
  | .wrongPrevHash _ _ => .authenticity
  | .wrongPrevSeed _ _ => .authenticity
  | .noProof => .authenticity
  | .badProof _ => .authenticity

end Violation

/-- What a check of succession works with. -/
structure Validator where
  /-- How headers are hashed. -/
  hasher : HeaderHasher
  /-- When features become active. -/
  flags : FlagSchedule
  /-- How proofs are verified. -/
  verify : ProofVerifier

namespace Validator

/-- The nonce after a given one, if there is one. -/
def nextNonce? (nonce : UInt64) : Option UInt64 :=
  if nonce.toNat + 1 < UInt64.size then some (nonce + 1) else none

/-- Checks the links between two headers: round, nonce, hash and seed. -/
def checkLinks (v : Validator) (current previous : Header) : Except Violation Unit :=
  if current.round ≤ previous.round then
    .error (.roundNotLater previous.round current.round)
  else if nextNonce? previous.nonce ≠ some current.nonce then
    .error (.wrongNonce (nextNonce? previous.nonce) current.nonce)
  else match v.hasher.hash previous with
    | .error fault => .error (.unhashable fault)
    | .ok hash =>
      if current.prevHash ≠ hash then .error (.wrongPrevHash hash current.prevHash)
      else if current.prevSeed ≠ previous.seed then
        .error (.wrongPrevSeed previous.seed current.prevSeed)
      else .ok ()

/-- Checks everything but the proof, and gives the proof that is to be
    verified, if one is due. -/
def proofDue (v : Validator) (current previous : Header) :
    Except Violation (Option QuorumProof) :=
  match v.checkLinks current previous with
  | .error violation => .error violation
  | .ok () =>
    if v.flags.isActive quorumProofs previous.epoch then
      match current.prevProof with
      | none => .error .noProof
      | some proof => .ok (some proof)
    else .ok none

/-- Checks that one header is built directly on top of another. Both may be
    missing. -/
def check (v : Validator) (current previous : Option Header) : Except Violation Unit :=
  match current, previous with
  | some current, some previous =>
    match v.proofDue current previous with
    | .error violation => .error violation
    | .ok none => .ok ()
    | .ok (some proof) =>
      match v.verify proof previous with
      | .error reason => .error (.badProof reason)
      | .ok () => .ok ()
  | _, _ => .error .noHeader

end Validator

end HeaderChain

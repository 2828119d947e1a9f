import HeaderChain.Cbor.Skip
import HeaderChain.Cbor.Writer
import HeaderChain.Header

/-!
# Headers in CBOR

The canonical binary form of headers, and its reader.

A record is an array of its parts in order. A proof for the predecessor is
the last part of a core and is left out when there is none, so a core has
eight parts or nine. A header is a pair: zero for a shard and one for the
metachain, and an array with the header of that kind.

The reader accepts more than the writer produces: any width of an integer,
arrays without stated length, and parts beyond the known ones.

## Main definitions

* `Header.toCbor`, `Header.ofCbor`: The binary form and its reader.
* The same for `ShardHeader`, `MetaHeader`, `HeaderCore` and `QuorumProof`.
* `decodeCbor`: Reads from the front of a byte string.
-/

namespace HeaderChain

open Cbor (Reader)

/-- The binary form of a proof. -/
def QuorumProof.toCbor (proof : QuorumProof) : List UInt8 :=
  Cbor.putArray 8 ++ Cbor.putBytes proof.signers ++ Cbor.putBytes proof.signature ++
    Cbor.putBytes proof.headerHash.bytes ++ Cbor.putUnsigned proof.epoch.toNat ++
    Cbor.putUnsigned proof.nonce.toNat ++ Cbor.putUnsigned proof.round.toNat ++
    Cbor.putUnsigned proof.shard.toNat ++ Cbor.putBool proof.startsEpoch

/-- Reads a proof. -/
def QuorumProof.ofCbor : Reader QuorumProof := do
  let cursor ← Cbor.openArray
  let (signers, cursor) ← Cbor.element Cbor.byteString cursor
  let (signature, cursor) ← Cbor.element Cbor.byteString cursor
  let (headerHash, cursor) ← Cbor.element Cbor.hash cursor
  let (epoch, cursor) ← Cbor.element Cbor.uint32 cursor
  let (nonce, cursor) ← Cbor.element Cbor.uint64 cursor
  let (round, cursor) ← Cbor.element Cbor.uint64 cursor
  let (shard, cursor) ← Cbor.element Cbor.uint32 cursor
  let (startsEpoch, cursor) ← Cbor.element Cbor.bool cursor
  Cbor.finish cursor
  return {
    signers := ← Cbor.present signers
    signature := ← Cbor.present signature
    headerHash := ← Cbor.present headerHash
    epoch := ← Cbor.present epoch
    nonce := ← Cbor.present nonce
    round := ← Cbor.present round
    shard := ← Cbor.present shard
    startsEpoch := ← Cbor.present startsEpoch }

/-- The eight parts that every core has. -/
def HeaderCore.partsToCbor (core : HeaderCore) : List UInt8 :=
  Cbor.putUnsigned core.nonce.toNat ++ Cbor.putUnsigned core.round.toNat ++
    Cbor.putUnsigned core.epoch.toNat ++ Cbor.putBytes core.prevHash.bytes ++
    Cbor.putBytes core.prevSeed ++ Cbor.putBytes core.seed ++
    Cbor.putBytes core.signers ++ Cbor.putBytes core.signature

/-- The binary form of a core. -/
def HeaderCore.toCbor (core : HeaderCore) : List UInt8 :=
  match core.prevProof with
  | none => Cbor.putArray 8 ++ core.partsToCbor
  | some proof => Cbor.putArray 9 ++ core.partsToCbor ++ proof.toCbor

/-- Reads a core. -/
def HeaderCore.ofCbor : Reader HeaderCore := do
  let cursor ← Cbor.openArray
  let (nonce, cursor) ← Cbor.element Cbor.uint64 cursor
  let (round, cursor) ← Cbor.element Cbor.uint64 cursor
  let (epoch, cursor) ← Cbor.element Cbor.uint32 cursor
  let (prevHash, cursor) ← Cbor.element Cbor.hash cursor
  let (prevSeed, cursor) ← Cbor.element Cbor.byteString cursor
  let (seed, cursor) ← Cbor.element Cbor.byteString cursor
  let (signers, cursor) ← Cbor.element Cbor.byteString cursor
  let (signature, cursor) ← Cbor.element Cbor.byteString cursor
  let (prevProof, cursor) ← Cbor.element (Cbor.nullable QuorumProof.ofCbor) cursor
  Cbor.finish cursor
  return {
    nonce := ← Cbor.present nonce
    round := ← Cbor.present round
    epoch := ← Cbor.present epoch
    prevHash := ← Cbor.present prevHash
    prevSeed := ← Cbor.present prevSeed
    seed := ← Cbor.present seed
    signers := ← Cbor.present signers
    signature := ← Cbor.present signature
    prevProof := prevProof.join }

/-- The binary form of a shard header. -/
def ShardHeader.toCbor (header : ShardHeader) : List UInt8 :=
  Cbor.putArray 2 ++ Cbor.putUnsigned header.shard.toNat ++ header.core.toCbor

/-- Reads a shard header. -/
def ShardHeader.ofCbor : Reader ShardHeader := do
  let cursor ← Cbor.openArray
  let (shard, cursor) ← Cbor.element Cbor.uint32 cursor
  let (core, cursor) ← Cbor.element HeaderCore.ofCbor cursor
  Cbor.finish cursor
  return { shard := ← Cbor.present shard, core := ← Cbor.present core }

/-- The binary form of a list of hashes. -/
def certifiedToCbor (hashes : List HeaderHash) : List UInt8 :=
  Cbor.putArray hashes.length ++ hashes.flatMap fun hash => Cbor.putBytes hash.bytes

/-- Reads a list of hashes. -/
def certifiedOfCbor : Reader (List HeaderHash) := do
  let cursor ← Cbor.openArray
  Cbor.collect Cbor.hash cursor

/-- The binary form of a metachain header. -/
def MetaHeader.toCbor (header : MetaHeader) : List UInt8 :=
  Cbor.putArray 2 ++ header.core.toCbor ++ certifiedToCbor header.certified

/-- Reads a metachain header. -/
def MetaHeader.ofCbor : Reader MetaHeader := do
  let cursor ← Cbor.openArray
  let (core, cursor) ← Cbor.element HeaderCore.ofCbor cursor
  let (certified, cursor) ← Cbor.element certifiedOfCbor cursor
  Cbor.finish cursor
  return { core := ← Cbor.present core, certified := ← Cbor.present certified }

/-- The binary form of a header. -/
def Header.toCbor : Header → List UInt8
  | .shard header => Cbor.putArray 2 ++ Cbor.putUnsigned 0 ++ Cbor.putArray 1 ++ header.toCbor
  | .metachain header => Cbor.putArray 2 ++ Cbor.putUnsigned 1 ++ Cbor.putArray 1 ++ header.toCbor

/-- Reads the head of the pair that a header is. -/
def openPair : Reader Unit := do
  let cursor ← Cbor.openArray
  if cursor = .left 2 then pure () else Cbor.fail .notAPair

/-- Reads an array with one item. -/
def onlyElement {α : Type} (read : Reader α) : Reader α := do
  let cursor ← Cbor.openArray
  let (a, cursor) ← Cbor.element read cursor
  Cbor.finish cursor
  Cbor.present a

/-- Reads a header. -/
def Header.ofCbor : Reader Header := do
  openPair
  let kind ← Cbor.signed
  if kind = 0 then Header.shard <$> onlyElement ShardHeader.ofCbor
  else if kind = 1 then Header.metachain <$> onlyElement MetaHeader.ofCbor
  else Cbor.fail .unknownVariant

/-- Reads from the front of a byte string and ignores what follows. -/
def decodeCbor {α : Type} (read : Reader α) (bytes : List UInt8) : Except Cbor.Fault α :=
  (read bytes).map Prod.fst

end HeaderChain

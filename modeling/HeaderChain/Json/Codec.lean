import HeaderChain.Checkpoint
import HeaderChain.Header
import HeaderChain.Json.Record
import HeaderChain.Provenance
import HeaderChain.Settings

/-!
# JSON Forms

How the values of this library are written in JSON, and their readers.

Records are objects with their parts in declared order, byte strings are
lists of numbers, hashes are strings of hexadecimal digits. A header is an
object with one member, whose name says which kind it is. A provenance is
its name.

## Main definitions

* `Header.toJson`, `Header.ofJson`: The form of a header and its reader.
* The same for `ShardHeader`, `MetaHeader`, `HeaderCore`, `QuorumProof`,
  `Hash`, `Provenance`, `Checkpoint` and `Settings`.
-/

namespace HeaderChain

open Json (Reader field required optional)

/-- The form of a 64-bit unsigned integer. -/
def Json.ofUInt64 (n : UInt64) : Json :=
  .integer n.toNat

/-- The form of a 32-bit unsigned integer. -/
def Json.ofUInt32 (n : UInt32) : Json :=
  .integer n.toNat

/-- The form of a 64-bit signed integer. -/
def Json.ofInt64 (n : Int64) : Json :=
  .integer n.toInt

/-- The form of a byte string. -/
def Json.ofBytes (bytes : List UInt8) : Json :=
  .ofList (bytes.map fun b => .integer b.toNat)

/-- Reads a byte string. -/
def Json.readBytes : Reader (List UInt8) :=
  Json.readList Json.readUInt8

/-- The form of a value that may be missing. -/
def Json.ofOption {α : Type} (form : α → Json) : Option α → Json
  | none => .null
  | some a => form a

/-- The form of a hash. -/
def Hash.toJson {size : Nat} (hash : Hash size) : Json :=
  .string hash.toHex

/-- Reads a hash. -/
def Hash.ofJson {size : Nat} : Reader (Hash size) := fun j =>
  match Json.readString j with
  | .error fault => .error fault
  | .ok text =>
    match Hash.parse text with
    | .error fault => .error (.badHash fault)
    | .ok hash => .ok hash

/-- Reads the hash of a header. -/
def HeaderHash.ofJson : Reader HeaderHash :=
  Hash.ofJson

/-- The form of a proof. -/
def QuorumProof.toJson (proof : QuorumProof) : Json :=
  .ofMembers
    [("pub_keys_bitmap", .ofBytes proof.signers),
      ("aggregated_signature", .ofBytes proof.signature),
      ("header_hash", proof.headerHash.toJson),
      ("header_epoch", .ofUInt32 proof.epoch),
      ("header_nonce", .ofUInt64 proof.nonce),
      ("header_round", .ofUInt64 proof.round),
      ("header_shard_id", .ofUInt32 proof.shard),
      ("is_start_of_epoch", .bool proof.startsEpoch)]

/-- Reads a proof. -/
def QuorumProof.ofJson : Reader QuorumProof := fun j => do
  let parts ← Json.parts "HeaderProof"
    [field "pub_keys_bitmap" Json.readBytes,
      field "aggregated_signature" Json.readBytes,
      field "header_hash" HeaderHash.ofJson,
      field "header_epoch" Json.readUInt32,
      field "header_nonce" Json.readUInt64,
      field "header_round" Json.readUInt64,
      field "header_shard_id" Json.readUInt32,
      field "is_start_of_epoch" Json.readBool] j
  return {
    signers := ← required parts "pub_keys_bitmap" Json.readBytes
    signature := ← required parts "aggregated_signature" Json.readBytes
    headerHash := ← required parts "header_hash" HeaderHash.ofJson
    epoch := ← required parts "header_epoch" Json.readUInt32
    nonce := ← required parts "header_nonce" Json.readUInt64
    round := ← required parts "header_round" Json.readUInt64
    shard := ← required parts "header_shard_id" Json.readUInt32
    startsEpoch := ← required parts "is_start_of_epoch" Json.readBool }

/-- The form of a core. -/
def HeaderCore.toJson (core : HeaderCore) : Json :=
  .ofMembers
    [("nonce", .ofUInt64 core.nonce),
      ("round", .ofUInt64 core.round),
      ("epoch", .ofUInt32 core.epoch),
      ("prev_hash", core.prevHash.toJson),
      ("prev_rand_seed", .ofBytes core.prevSeed),
      ("rand_seed", .ofBytes core.seed),
      ("pub_keys_bitmap", .ofBytes core.signers),
      ("signature", .ofBytes core.signature),
      ("previous_proof", .ofOption QuorumProof.toJson core.prevProof)]

/-- Reads a core. The proof may be left out. -/
def HeaderCore.ofJson : Reader HeaderCore := fun j => do
  let parts ← Json.parts "HeaderCore"
    [field "nonce" Json.readUInt64,
      field "round" Json.readUInt64,
      field "epoch" Json.readUInt32,
      field "prev_hash" HeaderHash.ofJson,
      field "prev_rand_seed" Json.readBytes,
      field "rand_seed" Json.readBytes,
      field "pub_keys_bitmap" Json.readBytes,
      field "signature" Json.readBytes,
      field "previous_proof" (Json.nullable QuorumProof.ofJson)] j
  return {
    nonce := ← required parts "nonce" Json.readUInt64
    round := ← required parts "round" Json.readUInt64
    epoch := ← required parts "epoch" Json.readUInt32
    prevHash := ← required parts "prev_hash" HeaderHash.ofJson
    prevSeed := ← required parts "prev_rand_seed" Json.readBytes
    seed := ← required parts "rand_seed" Json.readBytes
    signers := ← required parts "pub_keys_bitmap" Json.readBytes
    signature := ← required parts "signature" Json.readBytes
    prevProof := ← optional parts "previous_proof" (Json.nullable QuorumProof.ofJson) }

/-- The form of a shard header. -/
def ShardHeader.toJson (header : ShardHeader) : Json :=
  .ofMembers [("shard_id", .ofUInt32 header.shard), ("core", header.core.toJson)]

/-- Reads a shard header. -/
def ShardHeader.ofJson : Reader ShardHeader := fun j => do
  let parts ← Json.parts "ShardHeader"
    [field "shard_id" Json.readUInt32, field "core" HeaderCore.ofJson] j
  return {
    shard := ← required parts "shard_id" Json.readUInt32
    core := ← required parts "core" HeaderCore.ofJson }

/-- The form of a metachain header. -/
def MetaHeader.toJson (header : MetaHeader) : Json :=
  .ofMembers
    [("core", header.core.toJson),
      ("shard_headers", .ofList (header.certified.map Hash.toJson))]

/-- Reads a metachain header. -/
def MetaHeader.ofJson : Reader MetaHeader := fun j => do
  let parts ← Json.parts "MetaHeader"
    [field "core" HeaderCore.ofJson,
      field "shard_headers" (Json.readList HeaderHash.ofJson)] j
  return {
    core := ← required parts "core" HeaderCore.ofJson
    certified := ← required parts "shard_headers" (Json.readList HeaderHash.ofJson) }

/-- The form of a header. -/
def Header.toJson : Header → Json
  | .shard header => .ofMembers [("Shard", header.toJson)]
  | .metachain header => .ofMembers [("Meta", header.toJson)]

/-- Reads a header. Its kind alone, without a value, will not do. -/
def Header.ofJson : Reader Header :=
  Json.readVariant ["Shard", "Meta"]
    (fun _ => .error (.wrongKind "unit variant" "newtype variant"))
    (fun kind j =>
      if kind = "Shard" then (ShardHeader.ofJson j).map Header.shard
      else (MetaHeader.ofJson j).map Header.metachain)

/-- The form of a provenance. -/
def Provenance.toJson (p : Provenance) : Json :=
  .string p.name

/-- All provenances, by ascending authority. -/
def Provenance.all : List Provenance :=
  [.proposed, .received, .notarized, .processed]

/-- The provenance of that name. -/
def Provenance.ofName (name : String) : Except Json.Fault Provenance :=
  match Provenance.all.find? (·.name == name) with
  | some p => .ok p
  | none => .error (.unknownVariant name (Provenance.all.map Provenance.name))

/-- Reads a provenance: its name, or an object in which its name carries
    `null`. -/
def Provenance.ofJson : Reader Provenance :=
  Json.readVariant (Provenance.all.map Provenance.name) Provenance.ofName
    (fun name j =>
      match Json.readUnit j with
      | .error fault => .error fault
      | .ok () => Provenance.ofName name)

/-- The form of a checkpoint. -/
def Checkpoint.toJson (c : Checkpoint) : Json :=
  .ofMembers
    [("nonce", .ofUInt64 c.nonce),
      ("round", .ofUInt64 c.round),
      ("hash", .ofOption Hash.toJson c.hash)]

/-- Reads a checkpoint. The hash may be left out. -/
def Checkpoint.ofJson : Reader Checkpoint := fun j => do
  let parts ← Json.parts "Checkpoint"
    [field "nonce" Json.readUInt64,
      field "round" Json.readUInt64,
      field "hash" (Json.nullable HeaderHash.ofJson)] j
  return {
    nonce := ← required parts "nonce" Json.readUInt64
    round := ← required parts "round" Json.readUInt64
    hash := ← optional parts "hash" (Json.nullable HeaderHash.ofJson) }

/-- The form of settings. -/
def Settings.toJson (s : Settings) : Json :=
  .ofMembers
    [("block_finality", .ofInt64 s.blockFinality),
      ("final_checkpoint_depth", .ofUInt64 s.finalDepth),
      ("max_rounds_without_received_block", .ofInt64 s.maxRoundsIdle),
      ("max_rounds_without_committed_block", .ofInt64 s.maxRoundsUncommitted),
      ("nonce_difference_when_synced", .ofInt64 s.syncedLead),
      ("round_modulus_trigger", .ofInt64 s.checkModulus)]

/-- Reads settings. -/
def Settings.ofJson : Reader Settings := fun j => do
  let parts ← Json.parts "ForkDetectorConfig"
    [field "block_finality" Json.readInt64,
      field "final_checkpoint_depth" Json.readUInt64,
      field "max_rounds_without_received_block" Json.readInt64,
      field "max_rounds_without_committed_block" Json.readInt64,
      field "nonce_difference_when_synced" Json.readInt64,
      field "round_modulus_trigger" Json.readInt64] j
  return {
    blockFinality := ← required parts "block_finality" Json.readInt64
    finalDepth := ← required parts "final_checkpoint_depth" Json.readUInt64
    maxRoundsIdle := ← required parts "max_rounds_without_received_block" Json.readInt64
    maxRoundsUncommitted := ← required parts "max_rounds_without_committed_block" Json.readInt64
    syncedLead := ← required parts "nonce_difference_when_synced" Json.readInt64
    checkModulus := ← required parts "round_modulus_trigger" Json.readInt64 }

end HeaderChain

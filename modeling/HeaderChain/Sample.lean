import HeaderChain.Detector.Operations

/-!
# Sample Headers

Headers and hashes made up from a few numbers, for trying things out.

A sample header belongs to shard zero, is signed and has both seeds, which
are named after the nonces. A sample hash is made from a byte or from a
label. Sample headers are offered to a detector in a world where nothing is
blacklisted and every seed verifies.

## Main definitions

* `Sample.hash`, `Sample.hashOfLabel`: Sample hashes.
* `Sample.header`, `Sample.unsignedHeader`, `Sample.headerOn`: Sample
  headers.
* `Sample.surroundings`, `Sample.offer`: A sample world and what is offered
  in it.
-/

namespace HeaderChain

namespace Sample

/-- The hash that starts with the given bytes, at most 32 of them, and goes
    on with zeros. -/
def filled (bytes : List UInt8) : HeaderHash :=
  { bytes := (bytes ++ List.replicate 32 0).take 32
    length_eq := by simp }

/-- The hash whose first byte is given. -/
def hash (n : UInt8) : HeaderHash :=
  filled [n]

/-- The hash that starts with a label. -/
def hashOfLabel (label : String) : HeaderHash :=
  filled (Hex.utf8 label)

/-- The seed that is named after a nonce. -/
def seed (nonce : Nat) : List UInt8 :=
  Hex.utf8 ("seed-" ++ Decimal.ofNat nonce)

/-- The core of a sample header. -/
def core (nonce round : UInt64) : HeaderCore :=
  { HeaderCore.blank with
    nonce, round
    prevSeed := seed (nonce.toNat - 1)
    seed := seed nonce.toNat
    signers := Hex.utf8 "X"
    signature := Hex.utf8 "sig" }

/-- A signed header with both seeds. -/
def header (nonce round : UInt64) : Header :=
  .shard ⟨0, core nonce round⟩

/-- A header that nobody has signed. -/
def unsignedHeader (nonce round : UInt64) : Header :=
  .shard ⟨0, { core nonce round with signers := [], signature := [] }⟩

/-- A header on top of a given one. -/
def headerOn (nonce round : UInt64) (prevHash : HeaderHash) : Header :=
  .shard ⟨0, { core nonce round with prevHash }⟩

/-- A world in a given round that raises no objections. -/
def surroundings (round : Int64) : Surroundings :=
  { round, blacklisted := fun _ => false, acceptsSeed := fun _ => true }

/-- A signed header is offered under the hash of a byte in round ten. -/
def offer (nonce round : UInt64) (n : UInt8) (provenance : Provenance)
    (ancestors : List Ancestor) : Event :=
  .offer (surroundings 10)
    { header := some (header nonce round), hash := some (hash n), provenance, ancestors }

end Sample

end HeaderChain

import HeaderChain.Blake2b
import HeaderChain.Cbor.Header

/-!
# Hashing Headers

How a header gets the hash that names it.

Whoever judges a chain is given a way to hash headers and need not know
which. The one in use digests the canonical binary form with Blake2b and
never fails; another may fail to serialise a header, and then says why.

## Main definitions

* `HeaderHasher`: A way to hash headers.
* `HeaderHasher.hash`: The hash of a header, if it can be serialised.
* `HeaderHasher.canonical`: The Blake2b digest of the canonical form.
* `Header.hash`: The hash of a header by that.
-/

namespace HeaderChain

/-- Why a header could not be hashed. -/
structure HashingFault where
  /-- What the serialiser reports. -/
  cause : String
  deriving DecidableEq

/-- The wording of a hashing fault. -/
def HashingFault.message (fault : HashingFault) : String :=
  "header serialisation failed: " ++ fault.cause

/-- A way to hash headers: their serialised form, which may fail, and the
    hash of that. -/
structure HeaderHasher where
  /-- The serialised form of a header. -/
  serialize : Header → Except HashingFault (List UInt8)
  /-- The hash of a serialised header. -/
  digest : List UInt8 → HeaderHash

/-- The hash of a header. -/
def HeaderHasher.hash (hasher : HeaderHasher) (header : Header) :
    Except HashingFault HeaderHash :=
  (hasher.serialize header).map hasher.digest

/-- The Blake2b digest of the canonical binary form. -/
def HeaderHasher.canonical : HeaderHasher :=
  ⟨fun header => .ok header.toCbor, Blake2b.digest256⟩

/-- The hash of a header's canonical binary form. -/
def Header.hash (header : Header) : HeaderHash :=
  Blake2b.digest256 header.toCbor

end HeaderChain

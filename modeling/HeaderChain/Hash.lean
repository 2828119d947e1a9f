import HeaderChain.Text.Hex

/-!
# Hashes

Fixed-size hashes, which name headers.

The size is part of the type, so a hash always has the bytes it should have
and two hashes of one size can be compared. The order is the lexicographic
order of the bytes: fork choice breaks ties with it, and because hexadecimal
text keeps it, a tie is broken the same way on the printed form.

## Main definitions

* `Hash`: A hash of a given size.
* `HeaderHash`: The 32-byte hash of a header.
* `Hash.ofBytes?`: The hash with given bytes, if there are enough of them.
* `Hash.toHex`, `Hash.parse`: The text form and its reader.
-/

namespace HeaderChain

/-- A hash of `size` bytes. -/
structure Hash (size : Nat) where
  /-- The bytes, in order. -/
  bytes : List UInt8
  /-- There are as many as the size says. -/
  length_eq : bytes.length = size
  deriving DecidableEq

/-- The hash of a header. -/
abbrev HeaderHash :=
  Hash 32

namespace Hash

variable {size : Nat}

/-- The hash whose bytes are all zero. -/
def zero : Hash size :=
  ⟨List.replicate size 0, List.length_replicate⟩

instance : Inhabited (Hash size) :=
  ⟨zero⟩

/-- The hash with the given bytes, or `none` if their number is wrong. -/
def ofBytes? (bytes : List UInt8) : Option (Hash size) :=
  if h : bytes.length = size then some ⟨bytes, h⟩ else none

/-- The wording for bytes of which there are too few or too many. -/
def wrongSizeMessage : String :=
  "could not convert slice to array"

/-- Hashes are ordered as their bytes are, the first difference deciding. -/
instance : LT (Hash size) :=
  ⟨fun a b => a.bytes < b.bytes⟩

instance : DecidableLT (Hash size) :=
  fun a b => inferInstanceAs (Decidable (a.bytes < b.bytes))

instance : Ord (Hash size) :=
  ⟨fun a b => if a < b then .lt else if a = b then .eq else .gt⟩

/-- The hashes in ascending order. -/
def ascending (hashes : List (Hash size)) : List (Hash size) :=
  hashes.mergeSort fun a b => !(b < a)

/-- The lower-case hexadecimal form of a hash. -/
def toHex (hash : Hash size) : String :=
  Hex.encode hash.bytes

/-- A hash together with its size, as it is shown in diagnostics. -/
def describe (hash : Hash size) : String :=
  "Hash<" ++ Decimal.ofNat size ++ ">(" ++ Quoted.text hash.toHex ++ ")"

/-- Reads a hash from hexadecimal text of either case. -/
def parse (text : String) : Except Hex.Fault (Hash size) :=
  match Hex.decode size text with
  | .error fault => .error fault
  | .ok bytes => if h : bytes.length = size then .ok ⟨bytes, h⟩ else .error .wrongLength

end Hash

end HeaderChain

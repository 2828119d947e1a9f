/-!
# Writing Canonical CBOR

The heads and leaves of the binary form that headers are hashed in.

An item starts with a head: its major type in the upper three bits of the
first byte, and its argument, the number that it is or the length of what
follows. An argument below 24 stands in the first byte itself and a greater
one behind it, in the fewest of one, two, four or eight bytes that hold it.
So each value has one form, and its hash is well defined.

## Main definitions

* `head`: The head of an item.
* `putUnsigned`, `putBytes`, `putBool`: The leaves.
* `putArray`: The head of an array of given length.
-/

namespace HeaderChain

namespace Cbor

/-- The lowest `width` bytes of a number, the highest first. -/
def bigEndian : Nat → Nat → List UInt8
  | 0, _ => []
  | width + 1, n => UInt8.ofNat (n / Nat.pow 256 width) :: bigEndian width n

/-- The first byte of a head. -/
def headByte (major info : Nat) : UInt8 :=
  UInt8.ofNat (32 * major + info)

/-- The head of an item of the given major type, whose argument is below
    `2 ^ 64`. -/
def head (major argument : Nat) : List UInt8 :=
  if argument < 24 then [headByte major argument]
  else if argument < UInt8.size then headByte major 24 :: bigEndian 1 argument
  else if argument < UInt16.size then headByte major 25 :: bigEndian 2 argument
  else if argument < UInt32.size then headByte major 26 :: bigEndian 4 argument
  else headByte major 27 :: bigEndian 8 argument

/-- An unsigned integer. -/
def putUnsigned (n : Nat) : List UInt8 :=
  head 0 n

/-- A byte string. -/
def putBytes (bytes : List UInt8) : List UInt8 :=
  head 2 bytes.length ++ bytes

/-- The head of an array of that many items. -/
def putArray (length : Nat) : List UInt8 :=
  head 4 length

/-- A truth value. -/
def putBool (b : Bool) : List UInt8 :=
  [if b then 0xf5 else 0xf4]

end Cbor

end HeaderChain

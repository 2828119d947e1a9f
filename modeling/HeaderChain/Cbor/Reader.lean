import HeaderChain.Hash

/-!
# Reading CBOR

Readers for the items that headers are made of.

Reading goes strictly from left to right and the first thing wrong is the
answer. Any width that holds an integer is accepted, and arrays may be of
stated length or run until a break; byte strings must state their length.
A reader gives back the bytes after the item it has read.

The elements of an array are read through a `Cursor`, which says how many
are still to come. A record is an array whose elements are its parts, so
its reader asks the cursor for one part after the other, gets nothing for
the parts that are missing, and at the end skips the elements that it does
not know.

## Main definitions

* `Fault`: The causes of refusal.
* `Reader`: A reader of items.
* `openArray`, `element`, `collect`: Arrays, element by element.
* `unsigned`, `signed`, `byteString`, `hash`, `bool`, `nullable`: Leaves.
-/

namespace HeaderChain

namespace Cbor

/-- Why bytes could not be read. -/
inductive Fault
  /-- The bytes end before the item does. -/
  | endOfInput
  /-- An item of another type stands here, or no item at all. -/
  | wrongType
  /-- The number of an alternative is unknown. -/
  | unknownVariant
  /-- A record lacks a part. -/
  | missingValue
  /-- An integer beyond the range of the type. -/
  | outOfRange
  /-- A text that is not in UTF-8. -/
  | invalidText
  /-- A byte string of the wrong length for a hash. -/
  | wrongHashSize
  /-- The outermost array, which tells the kind of a header, is not one of
      two elements and stated length. -/
  | notAPair
  deriving DecidableEq

/-- The wording of the faults that have one of their own. -/
def Fault.message? : Fault → Option String
  | .wrongHashSize => some "decode error: invalid hash size"
  | .notAPair => some "decode error at position 0: expected enum (2-element array)"
  | _ => none

/-- A reader of items from the front of a byte string. -/
abbrev Reader :=
  StateT (List UInt8) (Except Fault)

/-- Refuses. -/
def fail {α : Type} (fault : Fault) : Reader α :=
  fun _ => .error fault

/-- The next byte. -/
def byte : Reader UInt8
  | [] => .error .endOfInput
  | b :: rest => .ok (b, rest)

/-- The next `n` bytes. -/
def take (n : Nat) : Reader (List UInt8) :=
  fun input =>
    if n ≤ input.length then .ok (input.take n, input.drop n) else .error .endOfInput

/-- The number whose bytes are given, the highest first. -/
def ofBigEndian (bytes : List UInt8) : Nat :=
  bytes.foldl (fun n b => n * 256 + b.toNat) 0

/-- The major type of a head. -/
def major (head : UInt8) : Nat :=
  head.toNat / 32

/-- The lower five bits of a head, which are or announce its argument. -/
def info (head : UInt8) : Nat :=
  head.toNat % 32

/-- The lower five bits that mark an item without stated length. -/
def indefinite : Nat :=
  31

/-- The argument of a head, which may stand behind it. -/
def argument (info : Nat) : Reader Nat :=
  if info < 24 then pure info
  else match info with
    | 24 => ofBigEndian <$> take 1
    | 25 => ofBigEndian <$> take 2
    | 26 => ofBigEndian <$> take 4
    | 27 => ofBigEndian <$> take 8
    | _ => fail .wrongType

/-- Refuses an item for its type. To name the type of a negative integer
    with its argument behind the head, the second byte after the head is
    looked at, so that has to be there. -/
def mismatch {α : Type} (head : UInt8) : Reader α :=
  fun input =>
    if 0x38 ≤ head ∧ head ≤ 0x3b ∧ input.length < 2 then .error .endOfInput
    else .error .wrongType

/-- An unsigned integer below `limit`. -/
def unsigned (limit : Nat) : Reader Nat := do
  let head ← byte
  if major head = 0 then
    let n ← argument (info head)
    if n < limit then pure n else fail .outOfRange
  else mismatch head

/-- A 64-bit unsigned integer. -/
def uint64 : Reader UInt64 :=
  UInt64.ofNat <$> unsigned UInt64.size

/-- A 32-bit unsigned integer. -/
def uint32 : Reader UInt32 :=
  UInt32.ofNat <$> unsigned UInt32.size

/-- A 64-bit signed integer. -/
def signed : Reader Int := do
  let head ← byte
  if major head = 0 then
    let n ← argument (info head)
    if n < Nat.pow 2 63 then pure n else fail .outOfRange
  else if major head = 1 then
    let n ← argument (info head)
    if n < Nat.pow 2 63 then pure (-1 - n) else fail .outOfRange
  else mismatch head

/-- A byte string of stated length. -/
def byteString : Reader (List UInt8) := do
  let head ← byte
  if major head = 2 ∧ info head ≠ indefinite then
    let n ← argument (info head)
    take n
  else mismatch head

/-- A text of stated length, as its bytes. -/
def textString : Reader (List UInt8) := do
  let head ← byte
  if major head = 3 ∧ info head ≠ indefinite then
    let n ← argument (info head)
    let bytes ← take n
    if (ByteArray.mk bytes.toArray).validateUTF8 then pure bytes else fail .invalidText
  else mismatch head

/-- A hash, written as a byte string. -/
def hash {size : Nat} : Reader (Hash size) := do
  let bytes ← byteString
  match Hash.ofBytes? bytes with
  | some hash => pure hash
  | none => fail .wrongHashSize

/-- A truth value. -/
def bool : Reader Bool := do
  let head ← byte
  if head = 0xf4 then pure false
  else if head = 0xf5 then pure true
  else mismatch head

/-- An item that may be `null`. -/
def nullable {α : Type} (read : Reader α) : Reader (Option α)
  | [] => .error .endOfInput
  | head :: rest => if head = 0xf6 then .ok (none, rest) else (some <$> read) (head :: rest)

/-- What is still to come of an array. -/
inductive Cursor
  /-- That many elements. -/
  | left (n : Nat)
  /-- Elements until a break. -/
  | untilBreak
  deriving DecidableEq

/-- The head of an array. -/
def openArray : Reader Cursor := do
  let head ← byte
  if major head = 4 then
    if info head = indefinite then pure .untilBreak
    else
      let n ← argument (info head)
      pure (.left n)
  else mismatch head

/-- What is to come after the next element, or `none` at the end of the
    array. A break that ends it is passed over. -/
def Cursor.next : Cursor → Reader (Option Cursor)
  | .left 0 => pure none
  | .left (n + 1) => pure (some (.left n))
  | .untilBreak => fun
    | [] => .error .endOfInput
    | head :: rest =>
      if head = 0xff then .ok (none, rest) else .ok (some .untilBreak, head :: rest)

/-- The next element, or `none` at the end of the array, and what is to come
    after it. -/
def element {α : Type} (read : Reader α) (cursor : Cursor) : Reader (Option α × Cursor) := do
  match ← cursor.next with
  | none => pure (none, .left 0)
  | some after =>
    let a ← read
    pure (some a, after)

/-- The elements that are to come. The fuel bounds their number. -/
def elements {α : Type} (read : Reader α) : Nat → Cursor → Reader (List α)
  | 0, _ => fail .endOfInput
  | fuel + 1, cursor => do
    match ← cursor.next with
    | none => pure []
    | some after =>
      let a ← read
      let more ← elements read fuel after
      pure (a :: more)

/-- All elements that are to come. Each takes a byte at least, so there are
    no more of them than bytes. -/
def collect {α : Type} (read : Reader α) (cursor : Cursor) : Reader (List α) :=
  fun input => elements read (input.length + 1) cursor input

/-- A part of a record that must be there. -/
def present {α : Type} : Option α → Reader α
  | some a => pure a
  | none => fail .missingValue

end Cbor

end HeaderChain

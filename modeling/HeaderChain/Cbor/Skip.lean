import HeaderChain.Cbor.Reader

/-!
# Skipping CBOR Items

Passing over items that a record does not know.

An item may hold others to any depth. Instead of following that structure
down, the skipper works through heads one by one and keeps track of what is
still due. As long as no array of stated length waits outside one that runs
until a break, two counts are enough: the items due and the breaks due.
Beyond that it keeps what is to come of every open array, the innermost
first. Maps count as arrays of twice as many items, and a tag is a part of
the item behind it.

The counts do not tell which array a break ends, and a break where none is
due counts as an item. So some malformed items are passed over as well; an
item that is well formed is passed over exactly.

## Main definitions

* `contents`: Reads an item up to the items it holds.
* `Pending`: What is due.
* `skip`: Passes over one item.
* `finish`: Passes over the rest of an array.
-/

namespace HeaderChain

namespace Cbor

/-- What stands behind the first byte of a head. -/
inductive Contents
  /-- The rest of an item that holds no others. -/
  | leaf
  /-- The rest of a head, behind which the items of an array come. -/
  | array (cursor : Cursor)
  /-- The rest of a tag. -/
  | tag
  deriving DecidableEq

/-- Reads an item from behind the first byte of its head, up to the items it
    holds. Pieces of a string without stated length are read with it. -/
def contents (head : UInt8) : Reader Contents :=
  match major head with
  | 2 =>
    if info head = indefinite then do
      let _ ← collect byteString .untilBreak
      pure .leaf
    else do
      let n ← argument (info head)
      let _ ← take n
      pure .leaf
  | 3 =>
    if info head = indefinite then do
      let _ ← collect textString .untilBreak
      pure .leaf
    else do
      let n ← argument (info head)
      let bytes ← take n
      if (ByteArray.mk bytes.toArray).validateUTF8 then pure .leaf else fail .invalidText
  | 4 =>
    if info head = indefinite then pure (.array .untilBreak)
    else do
      let n ← argument (info head)
      pure (.array (.left n))
  | 5 =>
    if info head = indefinite then pure (.array .untilBreak)
    else do
      let n ← argument (info head)
      pure (.array (.left (2 * n)))
  | 6 => do
    let _ ← argument (info head)
    pure .tag
  | _ => do
    let _ ← argument (info head)
    pure .leaf

/-- What is due before an item is passed over. -/
structure Pending where
  /-- How many items are due, as far as counting is enough. -/
  items : Nat
  /-- How many breaks are due, as far as counting is enough. -/
  breaks : Nat
  /-- What is to come of the open arrays once it is not, the innermost
      first. -/
  arrays : List Cursor
  deriving DecidableEq

namespace Pending

/-- Whether the counts are used up. -/
def uncounted (p : Pending) : Bool :=
  p.items == 0 && p.breaks == 0

/-- Whether nothing is due. -/
def isDone (p : Pending) : Bool :=
  p.uncounted && p.arrays.isEmpty

/-- An array opens. -/
def enter (p : Pending) (cursor : Cursor) : Pending :=
  if p.uncounted then { p with arrays := cursor :: p.arrays }
  else match cursor with
    | .left n => { p with items := p.items + n }
    | .untilBreak =>
      if p.items < 2 then { p with breaks := p.breaks + 1 }
      else
        { items := 0, breaks := 0
          arrays := .untilBreak :: .left (p.items - 1) ::
            List.replicate p.breaks .untilBreak ++ p.arrays }

/-- A break is read. -/
def close (p : Pending) : Pending :=
  if p.uncounted then
    match p.arrays with
    | .untilBreak :: outer => { p with arrays := outer }
    | _ => p
  else { p with breaks := p.breaks - 1 }

/-- An item is complete up to the items it holds. -/
def pass (p : Pending) : Pending :=
  if p.uncounted then
    match p.arrays.dropWhile (· == .left 0) with
    | .left n :: outer => { p with arrays := .left (n - 1) :: outer }
    | arrays => { p with arrays }
  else { p with items := p.items - 1 }

end Pending

/-- Passes over all that is due. The fuel bounds the number of heads. -/
def skipPending : Nat → Pending → Reader Unit
  | fuel, p =>
    if p.isDone then pure ()
    else match fuel with
      | 0 => fail .endOfInput
      | fuel + 1 => do
        let head ← byte
        if head = 0xff then skipPending fuel p.close.pass
        else match ← contents head with
          | .leaf => skipPending fuel p.pass
          | .array cursor => skipPending fuel (p.enter cursor).pass
          | .tag => skipPending fuel p

/-- Passes over one item. -/
def skip : Reader Unit :=
  fun input => skipPending input.length ⟨1, 0, []⟩ input

/-- Passes over the rest of an array. -/
def finish (cursor : Cursor) : Reader Unit := do
  let _ ← collect skip cursor
  pure ()

end Cbor

end HeaderChain

import HeaderChain.Hash

/-!
# Blake2b

The Blake2b digest of 32 bytes, without a key.

The message is cut into blocks of 128 bytes, the last one filled up with
zeros, and each block is mixed into eight chained words. A block's mixing
works on sixteen words: the chained ones and eight constants, two of them
crossed with the number of message bytes so far and one inverted in the last
block. Twelve rounds follow, each mixing the columns and then the diagonals
with the block's words in an order of their own.

## Main definitions

* `compress`: Mixes one block into the chained words.
* `digest256`: The digest of a byte string.
-/

namespace HeaderChain

namespace Blake2b

/-- The chained words. -/
abbrev Chain :=
  Vector UInt64 8

/-- The sixteen words that a block is mixed in. -/
abbrev Block :=
  Vector UInt64 16

/-- The constants that the chained words start from. -/
def initial : Chain :=
  #v[0x6a09e667f3bcc908, 0xbb67ae8584caa73b, 0x3c6ef372fe94f82b, 0xa54ff53a5f1d36f1,
    0x510e527fade682d1, 0x9b05688c2b3e6c1f, 0x1f83d9abfb41bd6b, 0x5be0cd19137e2179]

/-- The order of the block's words in each round. -/
def schedule : List (Vector (Fin 16) 16) :=
  [#v[0, 1, 2, 3, 4, 5, 6, 7, 8, 9, 10, 11, 12, 13, 14, 15],
    #v[14, 10, 4, 8, 9, 15, 13, 6, 1, 12, 0, 2, 11, 7, 5, 3],
    #v[11, 8, 12, 0, 5, 2, 15, 13, 10, 14, 3, 6, 7, 1, 9, 4],
    #v[7, 9, 3, 1, 13, 12, 11, 14, 2, 6, 5, 10, 4, 0, 15, 8],
    #v[9, 0, 5, 7, 2, 4, 10, 15, 14, 1, 11, 12, 6, 8, 3, 13],
    #v[2, 12, 6, 10, 0, 11, 8, 3, 4, 13, 7, 5, 15, 14, 1, 9],
    #v[12, 5, 1, 15, 14, 13, 4, 10, 0, 7, 6, 3, 9, 2, 8, 11],
    #v[13, 11, 7, 14, 12, 1, 3, 9, 5, 0, 15, 4, 8, 6, 2, 10],
    #v[6, 15, 14, 9, 11, 3, 0, 8, 12, 2, 13, 7, 1, 4, 10, 5],
    #v[10, 2, 8, 4, 7, 6, 1, 5, 15, 11, 9, 14, 3, 12, 13, 0],
    #v[0, 1, 2, 3, 4, 5, 6, 7, 8, 9, 10, 11, 12, 13, 14, 15],
    #v[14, 10, 4, 8, 9, 15, 13, 6, 1, 12, 0, 2, 11, 7, 5, 3]]

/-- A word turned right by `n` bits. -/
def rotateRight (x : UInt64) (n : UInt64) : UInt64 :=
  (x >>> n) ||| (x <<< (64 - n))

/-- Mixes two words of the message into four words. -/
def mix (v : Block) (a b c d : Fin 16) (x y : UInt64) : Block :=
  let va := v[a] + v[b] + x
  let vd := rotateRight (v[d] ^^^ va) 32
  let vc := v[c] + vd
  let vb := rotateRight (v[b] ^^^ vc) 24
  let va := va + vb + y
  let vd := rotateRight (vd ^^^ va) 16
  let vc := vc + vd
  let vb := rotateRight (vb ^^^ vc) 63
  (((v.set a va).set b vb).set c vc).set d vd

/-- One round: the four columns, then the four diagonals. -/
def round (m : Block) (v : Block) (order : Vector (Fin 16) 16) : Block :=
  let word (i : Fin 16) : UInt64 := m[order[i]]
  let v := mix v 0 4 8 12 (word 0) (word 1)
  let v := mix v 1 5 9 13 (word 2) (word 3)
  let v := mix v 2 6 10 14 (word 4) (word 5)
  let v := mix v 3 7 11 15 (word 6) (word 7)
  let v := mix v 0 5 10 15 (word 8) (word 9)
  let v := mix v 1 6 11 12 (word 10) (word 11)
  let v := mix v 2 7 8 13 (word 12) (word 13)
  mix v 3 4 9 14 (word 14) (word 15)

/-- The word whose bytes are given, the lowest first. -/
def littleEndian (bytes : List UInt8) : UInt64 :=
  bytes.foldr (fun b n => (n <<< 8) ||| b.toUInt64) 0

/-- The words of a block of at most 128 bytes, filled up with zeros. -/
def words (bytes : List UInt8) : Block :=
  Vector.ofFn fun i => littleEndian ((bytes.drop (8 * i.val)).take 8)

/-- Mixes a block into the chained words. `count` is the number of message
    bytes up to its end. -/
def compress (h : Chain) (block : List UInt8) (count : Nat) (last : Bool) : Chain :=
  let v : Block := h ++ initial
  let v := v.set 12 (v[12] ^^^ UInt64.ofNat count)
  let v := v.set 13 (v[13] ^^^ UInt64.ofNat (count / UInt64.size))
  let v := if last then v.set 14 (~~~v[14]) else v
  let v := schedule.foldl (round (words block)) v
  Vector.ofFn fun i => h[i] ^^^ v[i.val] ^^^ v[i.val + 8]

/-- Mixes the blocks of a message into the chained words. The last block is
    never empty unless the message is. -/
def absorb (h : Chain) (count : Nat) (bytes : List UInt8) : Chain :=
  if bytes.length ≤ 128 then compress h bytes (count + bytes.length) true
  else absorb (compress h (bytes.take 128) (count + 128) false) (count + 128) (bytes.drop 128)
termination_by bytes.length
decreasing_by simp; omega

/-- The bytes of a word, the lowest first. -/
def wordBytes (x : UInt64) : List UInt8 :=
  (List.range 8).map fun i => (x >>> UInt64.ofNat (8 * i)).toUInt8

/-- The first four words give the 32 bytes of the digest. -/
def output (h : Chain) : HeaderHash :=
  { bytes := wordBytes h[0] ++ wordBytes h[1] ++ wordBytes h[2] ++ wordBytes h[3]
    length_eq := by simp [wordBytes] }

/-- The Blake2b digest of 32 bytes. The first word carries the digest's size
    and the shape of a plain, sequential hash. -/
def digest256 (message : List UInt8) : HeaderHash :=
  output (absorb (initial.set 0 (initial[0] ^^^ 0x01010020)) 0 message)

end Blake2b

end HeaderChain

import HeaderChain.Hash

/-!
# Checkpoints

Blocks held to be on the canonical chain, and the last of them that can no
longer be reverted.

The history lists the checkpoints by ascending nonce. A processed header is
pushed at its end and replaces what lies at its nonce or above; a certified
ancestor is put in its place and is final at once. The final checkpoint
otherwise follows the last one at a fixed depth. It moves up and never
down.

## Main definitions

* `Checkpoint`: A block held to be on the canonical chain.
* `History`: The checkpoints and the final one.
* `History.push`, `History.settle`, `History.certify`: A processed header,
  the depth rule and a certified ancestor.
* `History.forget`, `History.prune`: Rolling back and tidying up.
-/

namespace HeaderChain

/-- A block held to be on the canonical chain. -/
structure Checkpoint where
  /-- Its nonce. -/
  nonce : UInt64
  /-- Its round. -/
  round : UInt64
  /-- Its hash, which is not known for the first block. -/
  hash : Option HeaderHash
  deriving DecidableEq

/-- The checkpoint that every chain starts from. -/
def Checkpoint.genesis : Checkpoint :=
  ⟨0, 0, none⟩

/-- The checkpoints of a chain and the final one. -/
structure History where
  /-- The checkpoints, by ascending nonce. -/
  checkpoints : List Checkpoint
  /-- The highest block that can no longer be reverted. -/
  final : Checkpoint
  deriving DecidableEq

namespace History

/-- The history of a chain that has only its first block. -/
def genesis : History :=
  ⟨[Checkpoint.genesis], Checkpoint.genesis⟩

/-- The most recent checkpoint, or the final one if the history is empty. -/
def last (h : History) : Checkpoint :=
  h.checkpoints.getLast?.getD h.final

/-- Adds the checkpoint of a processed header. Those at its nonce or above
    belong to a branch it replaces. -/
def push (h : History) (c : Checkpoint) : History :=
  { h with checkpoints := h.checkpoints.filter (·.nonce < c.nonce) ++ [c] }

/-- Makes a checkpoint final if it lies above the final one. -/
def raise (h : History) (c : Checkpoint) : History :=
  if h.final.nonce < c.nonce then { h with final := c } else h

/-- Whether a nonce lies at least `depth` below the last one. A sum that
    exceeds the words counts as the greatest word. -/
def isDeep (depth last nonce : UInt64) : Bool :=
  min (nonce.toNat + depth.toNat) (UInt64.size - 1) ≤ last.toNat

/-- Makes the highest checkpoint final that lies at least `depth` nonces
    below the last one. -/
def settle (h : History) (depth : UInt64) : History :=
  match h.checkpoints.reverse.find? fun c => isDeep depth h.last.nonce c.nonce with
  | some c => h.raise c
  | none => h

/-- Puts a checkpoint in its place, over one of the same nonce. -/
def place (c : Checkpoint) : List Checkpoint → List Checkpoint
  | [] => [c]
  | d :: rest =>
    if c.nonce < d.nonce then c :: d :: rest
    else if c.nonce = d.nonce then c :: rest
    else d :: place c rest

/-- Whether a nonce lies above the final checkpoint and not above the last
    one. -/
def covers (h : History) (nonce : UInt64) : Bool :=
  h.final.nonce < nonce && nonce ≤ h.last.nonce

/-- Takes in an ancestor certified by a parent chain, which is final at once.
    It is ignored outside the range that the history covers. -/
def certify (h : History) (c : Checkpoint) : History :=
  if h.covers c.nonce then { h with checkpoints := place c h.checkpoints }.raise c else h

/-- Makes the last checkpoint final. -/
def settleAll (h : History) : History :=
  h.raise h.last

/-- Drops the checkpoint of a nonce. -/
def forget (h : History) (nonce : UInt64) : History :=
  { h with checkpoints := h.checkpoints.filter (·.nonce != nonce) }

/-- Drops the checkpoints below the final one. -/
def prune (h : History) : History :=
  { h with checkpoints := h.checkpoints.filter (h.final.nonce ≤ ·.nonce) }

end History

end HeaderChain

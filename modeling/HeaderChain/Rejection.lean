import HeaderChain.Hash

/-!
# Rejections

What a refused header tells about its source.

## Main definitions

* `RejectionKind`: The three kinds of refusal.
* `RejectionKind.isPeerFault`: The source deserves a penalty.
* `Rejection`: Why a detector does not take a header in.
-/

namespace HeaderChain

/-- The kind of a refusal, which says what to do with the source of a
    header. -/
inductive RejectionKind
  /-- The caller passed something unusable. -/
  | malformedInput
  /-- The header is late, premature or known already and may be dropped
      silently. -/
  | temporalOrdering
  /-- The header does not authenticate. -/
  | authenticity
  deriving DecidableEq

/-- Whether the peer that sent a header deserves a penalty. -/
def RejectionKind.isPeerFault : RejectionKind → Bool
  | .authenticity => true
  | _ => false

/-- Why a detector does not take a header in. -/
inductive Rejection
  /-- There is no header. -/
  | noHeader
  /-- There is no hash. -/
  | noHash
  /-- The round lies below the final checkpoint's or is too long past. -/
  | roundTooLow (round : UInt64) (limit : Int)
  /-- The nonce does not lie above the final checkpoint's. -/
  | nonceTooLow (nonce final : UInt64)
  /-- The round lies beyond the next one. -/
  | roundTooHigh (round : UInt64) (next : Int)
  /-- The nonce has advanced further than the round since the final
      checkpoint. -/
  | nonceTooHigh (rounds nonces : Int)
  /-- A proposed header builds on a blacklisted one. -/
  | blacklisted (prevHash : HeaderHash)
  /-- The seed of a proposed header does not verify. -/
  | badSeed
  /-- The header is not signed. -/
  | notSigned
  deriving DecidableEq

namespace Rejection

/-- The wording of a rejection. -/
def message : Rejection → String
  | .noHeader => "nil header"
  | .noHash => "nil hash"
  | .roundTooLow round limit =>
    "lower round in block: round " ++ Decimal.ofNat round.toNat ++ ", limit " ++
      Decimal.ofInt limit
  | .nonceTooLow nonce final =>
    "lower nonce in block: nonce " ++ Decimal.ofNat nonce.toNat ++ ", final nonce " ++
      Decimal.ofNat final.toNat
  | .roundTooHigh round next =>
    "higher round in block: round " ++ Decimal.ofNat round.toNat ++ ", next round " ++
      Decimal.ofInt next
  | .nonceTooHigh rounds nonces =>
    "higher nonce in block: nonce distance " ++ Decimal.ofInt nonces ++
      " exceeds round distance " ++ Decimal.ofInt rounds
  | .blacklisted prevHash => "header is blacklisted: previous hash " ++ prevHash.toHex
  | .badSeed => "random seed not valid"
  | .notSigned => "block is not signed"

/-- The kind of a rejection. -/
def kind : Rejection → RejectionKind
  | .noHeader => .malformedInput
  | .noHash => .malformedInput
  | .roundTooLow _ _ => .temporalOrdering
  | .nonceTooLow _ _ => .temporalOrdering
  | .roundTooHigh _ _ => .temporalOrdering
  | .nonceTooHigh _ _ => .temporalOrdering
  | .blacklisted _ => .authenticity
  | .badSeed => .authenticity
  | .notSigned => .authenticity

end Rejection

end HeaderChain

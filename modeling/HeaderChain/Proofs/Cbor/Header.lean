import HeaderChain.Cbor.Header
import HeaderChain.Proofs.Cbor.Takes
import HeaderChain.Sample
import Mathlib.Tactic.MkIffOfInductiveProp

/-!
# The Canonical Form of Headers

Whatever a header holds, its binary form tells it, and tells where it ends.

A header is named by the digest of its form, so two headers of one form would
pass for one another in every chain. That they are told apart comes down to the
reader of each record, and to what it takes: the form of the record, whatever
comes next. The one record for which this is in question is the core, whose last
part is left out if there is no proof. Inside a metachain header a list of hashes
comes next, and the reader must not look there for the proof. It does not, since
the array says beforehand how many parts it has, eight or nine.

A length has to fit a word to be written. That of a byte string or a list in
memory always does, but a list in the mathematical sense may be longer, so a
value has to be `Encodable` to have a form. Its integers fit anyway.

What is cut short is never mistaken for something else, wherever the cut is. That
again is in question only for the core, whose proof may be missing from the bytes
because there is none, or because they end there. The number of parts, which stands
in front, tells the two apart.

## Main definitions

* `QuorumProof.Encodable`, `HeaderCore.Encodable`, `ShardHeader.Encodable`,
  `MetaHeader.Encodable`, `Header.Encodable`: The lengths in a value can be
  written.
* `Cbor.Canonical`: A form that is read back exactly and told from every other.
* `Cbor.Indivisible`: A form that is read as a whole or not at all.

## Theorems

* `QuorumProof.takes`, `HeaderCore.takes`, `ShardHeader.takes`,
  `MetaHeader.takes`, `Header.takes`: Each reader takes the form of its record.
* `Cbor.Canonical.of_takes`: A form that is taken is canonical.
* `headers_canonical`: The forms of headers and of their parts are canonical, and
  the two kinds have no form in common.
* `headers_indivisible`: Forms that are cut short are refused as such.
-/

namespace HeaderChain

open Cbor (Takes Reader)

/-! ### What can be written -/

/-- The byte strings of a proof can be written. -/
@[mk_iff]
structure QuorumProof.Encodable (proof : QuorumProof) : Prop where
  /-- Which validators contributed. -/
  signers : proof.signers.length < UInt64.size
  /-- The aggregated signature. -/
  signature : proof.signature.length < UInt64.size

/-- The byte strings of a core can be written, and those of its proof. -/
@[mk_iff]
structure HeaderCore.Encodable (core : HeaderCore) : Prop where
  /-- The seed of the predecessor. -/
  prevSeed : core.prevSeed.length < UInt64.size
  /-- The seed. -/
  seed : core.seed.length < UInt64.size
  /-- Which validators signed. -/
  signers : core.signers.length < UInt64.size
  /-- The signature. -/
  signature : core.signature.length < UInt64.size
  /-- The proof for the predecessor, if there is one. -/
  prevProof : ∀ proof ∈ core.prevProof, proof.Encodable

/-- What a shard header holds can be written. -/
def ShardHeader.Encodable (header : ShardHeader) : Prop :=
  header.core.Encodable

/-- What a metachain header holds can be written. -/
@[mk_iff]
structure MetaHeader.Encodable (header : MetaHeader) : Prop where
  /-- The common part. -/
  core : header.core.Encodable
  /-- The certified headers. -/
  certified : header.certified.length < UInt64.size

/-- What a header holds can be written. -/
def Header.Encodable : Header → Prop
  | .shard header => header.Encodable
  | .metachain header => header.Encodable

instance (proof : QuorumProof) : Decidable proof.Encodable :=
  decidable_of_iff _ (QuorumProof.encodable_iff proof).symm

instance (core : HeaderCore) : Decidable core.Encodable :=
  decidable_of_iff _ (HeaderCore.encodable_iff core).symm

instance (header : MetaHeader) : Decidable header.Encodable :=
  decidable_of_iff _ (MetaHeader.encodable_iff header).symm

instance (header : Header) : Decidable header.Encodable :=
  match header with
  | .shard header => inferInstanceAs (Decidable header.core.Encodable)
  | .metachain header => inferInstanceAs (Decidable header.Encodable)

/-! ### What is taken -/

theorem QuorumProof.takes {proof : QuorumProof} (h : proof.Encodable) :
    Takes QuorumProof.ofCbor proof.toCbor proof := by
  unfold QuorumProof.ofCbor QuorumProof.toCbor
  simp only [List.append_assoc]
  refine (Takes.openArray (by decide)).bind ?_
  refine ((Takes.byteString h.signers).element 7).bind ?_
  refine ((Takes.byteString h.signature).element 6).bind ?_
  refine ((Takes.hash proof.headerHash (by decide)).element 5).bind ?_
  refine ((Takes.uint32 proof.epoch).element 4).bind ?_
  refine ((Takes.uint64 proof.nonce).element 3).bind ?_
  refine ((Takes.uint64 proof.round).element 2).bind ?_
  refine ((Takes.uint32 proof.shard).element 1).bind ?_
  refine ((Takes.bool proof.startsEpoch).element 0).last ?_
  -- No part is missing and none is left over, so the record is made of them.
  exact Takes.finish.first (.pure proof)

/-- A proof is an array, so it is not mistaken for `null`. -/
theorem QuorumProof.takes_nullable {proof : QuorumProof} (h : proof.Encodable) :
    Takes (Cbor.nullable QuorumProof.ofCbor) proof.toCbor (some proof) := by
  have hfirst : ∃ tail, proof.toCbor = 0x88 :: tail := ⟨_, rfl⟩
  rcases hfirst with ⟨tail, htail⟩
  have htakes := QuorumProof.takes h
  rw [htail] at htakes ⊢
  exact htakes.nullable (by decide)

/-- A core is taken if what stands behind its eight parts is taken for the proof
    that it has, or has not. -/
theorem HeaderCore.takes_of_prevProof {core : HeaderCore} (h : core.Encodable) {n : Nat}
    (hn : n ≤ 1) {piece : List UInt8} {last : Option (Option QuorumProof)}
    (hlast : Takes (Cbor.element (Cbor.nullable QuorumProof.ofCbor) (.left n)) piece
      (last, .left 0)) (hjoin : last.join = core.prevProof) :
    Takes HeaderCore.ofCbor (Cbor.putArray (n + 8) ++ (core.partsToCbor ++ piece)) core := by
  have hlength : n + 8 < UInt64.size := Nat.lt_of_le_of_lt (Nat.add_le_add_right hn 8) (by decide)
  unfold HeaderCore.ofCbor HeaderCore.partsToCbor
  simp only [List.append_assoc]
  refine (Takes.openArray hlength).bind ?_
  refine ((Takes.uint64 core.nonce).element (n + 7)).bind ?_
  refine ((Takes.uint64 core.round).element (n + 6)).bind ?_
  refine ((Takes.uint32 core.epoch).element (n + 5)).bind ?_
  refine ((Takes.hash core.prevHash (by decide)).element (n + 4)).bind ?_
  refine ((Takes.byteString h.prevSeed).element (n + 3)).bind ?_
  refine ((Takes.byteString h.seed).element (n + 2)).bind ?_
  refine ((Takes.byteString h.signers).element (n + 1)).bind ?_
  refine ((Takes.byteString h.signature).element n).bind ?_
  refine hlast.last (Takes.finish.first ?_)
  have hcore : Takes (pure { core with prevProof := last.join }) [] core := by
    rw [hjoin]
    exact .pure core
  exact hcore

theorem HeaderCore.takes {core : HeaderCore} (h : core.Encodable) :
    Takes HeaderCore.ofCbor core.toCbor core := by
  unfold toCbor
  cases hproof : core.prevProof with
  | none =>
      -- The array is used up, so what comes next is not looked at.
      have htakes := takes_of_prevProof h (Nat.zero_le 1) (Takes.element_nil _) hproof.symm
      rwa [List.append_nil] at htakes
  | some proof =>
      have hlast := (QuorumProof.takes_nullable (h.prevProof proof hproof)).element 0
      have htakes := takes_of_prevProof h (Nat.le_refl 1) hlast hproof.symm
      rwa [← List.append_assoc] at htakes

theorem ShardHeader.takes {header : ShardHeader} (h : header.Encodable) :
    Takes ShardHeader.ofCbor header.toCbor header := by
  unfold ShardHeader.ofCbor ShardHeader.toCbor
  rw [List.append_assoc]
  refine (Takes.openArray (by decide)).bind ?_
  refine ((Takes.uint32 header.shard).element 1).bind ?_
  refine ((HeaderCore.takes h).element 0).last ?_
  exact Takes.finish.first (.pure header)

theorem takes_certified {hashes : List HeaderHash} (h : hashes.length < UInt64.size) :
    Takes certifiedOfCbor (certifiedToCbor hashes) hashes :=
  (Takes.openArray h).bind (Takes.collect (fun hash _ => .hash hash (by decide)) rfl)

theorem MetaHeader.takes {header : MetaHeader} (h : header.Encodable) :
    Takes MetaHeader.ofCbor header.toCbor header := by
  unfold MetaHeader.ofCbor MetaHeader.toCbor
  rw [List.append_assoc]
  refine (Takes.openArray (by decide)).bind ?_
  refine ((HeaderCore.takes h.core).element 1).bind ?_
  refine ((takes_certified h.certified).element 0).last ?_
  exact Takes.finish.first (.pure header)

theorem takes_openPair : Takes openPair (Cbor.putArray 2) () := by
  have hopen : Takes Cbor.openArray (Cbor.putArray 2) (.left 2) := .openArray (by decide)
  exact hopen.last (.pure ())

theorem takes_onlyElement {α : Type} {read : Reader α} {piece : List UInt8} {a : α}
    (h : Takes read piece a) : Takes (onlyElement read) (Cbor.putArray 1 ++ piece) a := by
  refine (Takes.openArray (by decide)).bind ((h.element 0).last ?_)
  exact Takes.finish.first (.pure a)

theorem Header.takes {header : Header} (h : header.Encodable) :
    Takes Header.ofCbor header.toCbor header := by
  unfold Header.ofCbor Header.toCbor
  cases header with
  | shard header =>
      simp only [List.append_assoc]
      refine takes_openPair.bind ((Takes.signed (by decide)).bind ?_)
      exact (takes_onlyElement (ShardHeader.takes h)).map Header.shard
  | metachain header =>
      simp only [List.append_assoc]
      refine takes_openPair.bind ((Takes.signed (by decide)).bind ?_)
      exact (takes_onlyElement (MetaHeader.takes h)).map Header.metachain

/-! ### Canonical forms -/

/-- A form of values, and a reader by which it is canonical. -/
structure Cbor.Canonical {α : Type} (Encodable : α → Prop) (write : α → List UInt8)
    (read : Reader α) : Prop where
  /-- A value is read back from the front of any bytes that start with its form,
      and what comes behind the form is left. -/
  roundTrip : ∀ a, Encodable a → ∀ rest, read (write a ++ rest) = .ok (a, rest)
  /-- Different values have different forms. -/
  injective : ∀ a b, Encodable a → Encodable b → write a = write b → a = b
  /-- No form is a proper beginning of another. -/
  prefixFree : ∀ a b, Encodable a → Encodable b → write a <+: write b → write a = write b

theorem Cbor.Canonical.of_takes {α : Type} {Encodable : α → Prop} {write : α → List UInt8}
    {read : Reader α} (h : ∀ a, Encodable a → Takes read (write a) a) :
    Cbor.Canonical Encodable write read where
  roundTrip a ha := (h a ha).reads
  injective a b ha hb heq := (h a ha).eq_of_isPrefix (h b hb) (heq ▸ List.prefix_rfl)
  prefixFree a b ha hb hp := congrArg write ((h a ha).eq_of_isPrefix (h b hb) hp)

theorem HeaderCore.exists_first (core : HeaderCore) :
    ∃ first tail, core.toCbor = first :: tail ∧ Cbor.major first = 4 := by
  unfold toCbor
  cases core.prevProof with
  | none => exact ⟨0x88, _, rfl, rfl⟩
  | some _ => exact ⟨0x89, _, rfl, rfl⟩

/-- The second byte tells a shard header from a metachain header: where one has the
    number of its shard, the other has its core. -/
theorem ShardHeader.toCbor_ne (s : ShardHeader) (m : MetaHeader) : s.toCbor ≠ m.toCbor := by
  intro heq
  have hword : s.shard.toNat < UInt64.size := Nat.lt_trans s.shard.toNat_lt_size (by decide)
  rcases Takes.exists_head 0 hword with ⟨i, tail, hi, hhead, _⟩
  rcases m.core.exists_first with ⟨first, tail', hcore, hmajor⟩
  have hs : s.toCbor = 0x82 :: Cbor.headByte 0 i :: (tail ++ s.core.toCbor) := by
    rw [ShardHeader.toCbor, Cbor.putUnsigned, hhead]
    rfl
  have hm : m.toCbor = 0x82 :: first :: (tail' ++ certifiedToCbor m.certified) := by
    rw [MetaHeader.toCbor, hcore]
    rfl
  rw [hs, hm] at heq
  have hfirst : Cbor.headByte 0 i = first := (List.cons.inj (List.cons.inj heq).2).1
  rw [← hfirst, Cbor.major_headByte (by decide) (Nat.lt_trans hi (by decide))] at hmajor
  exact absurd hmajor (by decide)

theorem Header.toCbor_ne (s : ShardHeader) (m : MetaHeader) :
    (Header.shard s).toCbor ≠ (Header.metachain m).toCbor := by
  intro heq
  have hkind : some (0 : UInt8) = some 1 := congrArg (fun bytes => bytes[1]?) heq
  exact absurd hkind (by decide)

/-- The canonical form of headers. A proof, a core, a header of either kind and a
    header of unknown kind are each read back from their form, whatever comes
    behind it, and exactly the form is read. Different values have different forms,
    no form is a proper beginning of another, and no form is that of a shard header
    and of a metachain header, with the number of the kind in front or without. -/
theorem headers_canonical :
    Cbor.Canonical QuorumProof.Encodable QuorumProof.toCbor QuorumProof.ofCbor ∧
      Cbor.Canonical HeaderCore.Encodable HeaderCore.toCbor HeaderCore.ofCbor ∧
      Cbor.Canonical ShardHeader.Encodable ShardHeader.toCbor ShardHeader.ofCbor ∧
      Cbor.Canonical MetaHeader.Encodable MetaHeader.toCbor MetaHeader.ofCbor ∧
      Cbor.Canonical Header.Encodable Header.toCbor Header.ofCbor ∧
      ∀ (s : ShardHeader) (m : MetaHeader),
        s.toCbor ≠ m.toCbor ∧ (Header.shard s).toCbor ≠ (Header.metachain m).toCbor := by
  exact ⟨.of_takes fun _ => QuorumProof.takes, .of_takes fun _ => HeaderCore.takes,
    .of_takes fun _ => ShardHeader.takes, .of_takes fun _ => MetaHeader.takes,
    .of_takes fun _ => Header.takes, fun s m => ⟨s.toCbor_ne m, Header.toCbor_ne s m⟩⟩

/-- A metachain header with a proof for its predecessor, which certifies two shard
    headers. Its nonce takes two bytes and its round takes four. -/
def certifyingHeader : Header :=
  .metachain
    { core :=
        { Sample.core 300 70000 with
          prevProof := some
            { signers := [5], signature := [7, 7], headerHash := Sample.hash 1, epoch := 4
              nonce := 299, round := 69999, shard := metachainShard, startsEpoch := true } }
      certified := [Sample.hash 2, Sample.hash 3] }

/-- It is read back with the proof, and the list behind the proof is not taken for a
    part of it. -/
theorem canonical_of_certifyingHeader :
    certifyingHeader.Encodable ∧
      (∀ rest, Header.ofCbor (certifyingHeader.toCbor ++ rest) = .ok (certifyingHeader, rest)) ∧
      ∀ other : Header, other.Encodable → certifyingHeader.toCbor <+: other.toCbor →
        certifyingHeader.toCbor = other.toCbor := by
  have hencodable : certifyingHeader.Encodable := by decide +kernel
  have hcanonical := headers_canonical.2.2.2.2.1
  exact ⟨hencodable, hcanonical.roundTrip certifyingHeader hencodable,
    fun other => hcanonical.prefixFree certifyingHeader other hencodable⟩

/-! ### Forms cut short -/

/-- A form of values that is read as a whole or not at all. -/
structure Cbor.Indivisible {α : Type} (Encodable : α → Prop) (write : α → List UInt8)
    (read : Reader α) : Prop where
  /-- The whole form is read as the value. -/
  whole : ∀ a, Encodable a → decodeCbor read (write a) = .ok a
  /-- Any proper beginning of it, be it empty, is refused for ending too early. -/
  cut : ∀ a, Encodable a → ∀ front, front <+: write a → front ≠ write a →
    decodeCbor read front = .error .endOfInput

theorem Cbor.Indivisible.of_takes {α : Type} {Encodable : α → Prop} {write : α → List UInt8}
    {read : Reader α} (h : ∀ a, Encodable a → Takes read (write a) a) :
    Cbor.Indivisible Encodable write read where
  whole a ha := congrArg (Except.map Prod.fst) (h a ha).reads_all
  cut a ha front hp hne := congrArg (Except.map Prod.fst) ((h a ha).runsOut front hp hne)

/-- Forms that are cut short are never misread. Of a proof, a core, a header of either
    kind and a header of unknown kind, no proper beginning of the form is read as a
    value, and each is refused because the bytes end there and for no other reason. -/
theorem headers_indivisible :
    Cbor.Indivisible QuorumProof.Encodable QuorumProof.toCbor QuorumProof.ofCbor ∧
      Cbor.Indivisible HeaderCore.Encodable HeaderCore.toCbor HeaderCore.ofCbor ∧
      Cbor.Indivisible ShardHeader.Encodable ShardHeader.toCbor ShardHeader.ofCbor ∧
      Cbor.Indivisible MetaHeader.Encodable MetaHeader.toCbor MetaHeader.ofCbor ∧
      Cbor.Indivisible Header.Encodable Header.toCbor Header.ofCbor := by
  exact ⟨.of_takes fun _ => QuorumProof.takes, .of_takes fun _ => HeaderCore.takes,
    .of_takes fun _ => ShardHeader.takes, .of_takes fun _ => MetaHeader.takes,
    .of_takes fun _ => Header.takes⟩

/-- The form of that metachain header as far as its core goes without the proof, which
    is all that a core without a proof has. -/
def certifyingHeaderCut : List UInt8 :=
  Cbor.putArray 2 ++ Cbor.putUnsigned 1 ++ Cbor.putArray 1 ++ Cbor.putArray 2 ++
    (Cbor.putArray 9 ++ certifyingHeader.core.partsToCbor)

/-- It is not read as a header whose core has no proof. -/
theorem indivisible_at_certifyingHeaderCut :
    certifyingHeader.Encodable ∧ certifyingHeaderCut <+: certifyingHeader.toCbor ∧
      certifyingHeaderCut ≠ certifyingHeader.toCbor ∧
      decodeCbor Header.ofCbor certifyingHeaderCut = .error .endOfInput := by
  have hencodable : certifyingHeader.Encodable := by decide +kernel
  have hfront : certifyingHeaderCut <+: certifyingHeader.toCbor := by decide +kernel
  have hcut : certifyingHeaderCut ≠ certifyingHeader.toCbor := by decide +kernel
  exact ⟨hencodable, hfront, hcut,
    headers_indivisible.2.2.2.2.cut certifyingHeader hencodable _ hfront hcut⟩

end HeaderChain

import HeaderChain.Proofs.Detector.Effect
import HeaderChain.Proofs.Succession

/-!
# Valid Chains

What any two blocks of a chain have in common whose links have been checked.

The checks relate each block to its predecessor. Whoever follows a chain compares
a block with one that may lie far below it, so what is wanted is a relation
between any two. The later one lies above, by no more nonces than rounds: this
holds of neighbours, it can be chained, and with the condition on the first block
it also holds of every block and the first of all.

## Main definitions

* `Block`: A block as it is processed.
* `ValidChain`: A chain whose links a validator has accepted.
* `lineage`: The checkpoints of a chain.
* `Checkpoint.Admits`: A checkpoint lies above another, by no more nonces than
  rounds.

## Theorems

* `ValidChain.admits`: Any two blocks of a valid chain lie in this order.
* `ValidChain.nonce_add`: The nonces have no gap.
* `ValidChain.low`: All nonces and rounds are low.
-/

namespace HeaderChain

/-- A block that the node processes: its header with its hash, and the world in
    which it is offered. -/
structure Block where
  /-- The world. -/
  env : Surroundings
  /-- The header. -/
  header : Header
  /-- Its hash. -/
  hash : HeaderHash

namespace Block

/-- The block is offered as processed, and without ancestors. -/
def event (b : Block) : Event :=
  .offer b.env ⟨some b.header, some b.hash, .processed, []⟩

/-- The checkpoint that it becomes. -/
def checkpoint (b : Block) : Checkpoint :=
  b.header.checkpoint b.hash

/-- The observation that it is. -/
def observation (b : Block) : Observation :=
  ⟨b.header.nonce, b.header.round, b.hash, .processed⟩

theorem not_received (b : Block) : b.observation.provenance ≠ .received :=
  fun h => Provenance.noConfusion h

theorem observation_eq_of_checkpoint_eq {a b : Block} (h : a.checkpoint = b.checkpoint) :
    a.observation = b.observation := by
  rcases Checkpoint.mk.inj h with ⟨hnonce, hround, hhash⟩
  unfold observation
  rw [hnonce, hround, Option.some.inj hhash]

end Block

/-- A chain of blocks whose links a validator has accepted. -/
structure ValidChain (v : Validator) (blocks : List Block) : Prop where
  /-- Each header is accepted on top of the one before it. -/
  links : v.Links (blocks.map Block.header)
  /-- The headers are signed. -/
  signed : ∀ b ∈ blocks, b.header.isSigned = true
  /-- The nonce of the first is positive and not greater than its round. -/
  starts : ∀ b ∈ blocks.head?, 1 ≤ b.header.nonce ∧ b.header.nonce ≤ b.header.round
  /-- When a block is offered there is a next round, and its own is not later. -/
  timely : ∀ b ∈ blocks, Fits (b.env.round.toInt + 1) ∧
    b.header.round.toNat ≤ b.env.round.toInt + 1

/-- The checkpoints of a chain, from the first of all on. -/
def lineage (blocks : List Block) : List Checkpoint :=
  .genesis :: blocks.map Block.checkpoint

theorem lineage_concat (blocks : List Block) (b : Block) :
    lineage (blocks ++ [b]) = lineage blocks ++ [b.checkpoint] := by
  rw [lineage, lineage, List.map_append, List.map_singleton, List.cons_append]

/-- A checkpoint lies above another, by no more nonces than rounds. -/
def Checkpoint.Admits (a b : Checkpoint) : Prop :=
  a.nonce < b.nonce ∧ b.nonce.toNat + a.round.toNat ≤ b.round.toNat + a.nonce.toNat

instance : Trans Checkpoint.Admits Checkpoint.Admits Checkpoint.Admits where
  trans hab hbc := ⟨UInt64.lt_trans hab.1 hbc.1, by
    have hab' := hab.2
    have hbc' := hbc.2
    omega⟩

namespace ValidChain

variable {v : Validator} {blocks : List Block} {b : Block}

/-- Any two blocks of a validated chain lie in this order, and so does each with
    the first of all. -/
theorem admits (h : ValidChain v blocks) : (lineage blocks).Pairwise Checkpoint.Admits := by
  refine List.isChain_iff_pairwise.mp (List.isChain_cons.mpr ⟨?_, ?_⟩)
  · intro c hc
    rw [List.head?_map] at hc
    rcases Option.map_eq_some_iff.mp hc with ⟨first, hfirst, rfl⟩
    rcases h.starts first hfirst with ⟨hpos, hle⟩
    have hle' := UInt64.le_iff_toNat_le.mp hle
    exact ⟨hpos, Nat.add_le_add_right hle' 0⟩
  · refine (List.isChain_map _).mpr (((List.isChain_map _).mp h.links).imp fun p c hcheck => ?_)
    rcases Validator.lt_of_check hcheck with ⟨hround, hnonce⟩
    have hround' := UInt64.lt_iff_toNat_lt.mp hround
    refine ⟨UInt64.lt_iff_toNat_lt.mpr ?_, ?_⟩
    · change p.header.nonce.toNat < c.header.nonce.toNat
      omega
    · change c.header.nonce.toNat + p.header.round.toNat
        ≤ c.header.round.toNat + p.header.nonce.toNat
      omega

theorem ascending (h : ValidChain v blocks) : Ascending (lineage blocks) :=
  h.admits.imp fun hab => hab.1

theorem front (h : ValidChain v (blocks ++ [b])) : ValidChain v blocks where
  links := by
    have hlinks := h.links
    rw [List.map_append] at hlinks
    exact hlinks.left_of_append
  signed c hc := h.signed c (List.mem_append_left _ hc)
  starts c hc := by
    refine h.starts c ?_
    rw [List.head?_append, Option.mem_def.mp hc]
    rfl
  timely c hc := h.timely c (List.mem_append_left _ hc)

/-- The last block lies above all others. -/
theorem admits_last (h : ValidChain v (blocks ++ [b])) :
    ∀ c ∈ lineage blocks, c.Admits b.checkpoint := by
  have hadmits := h.admits
  rw [lineage_concat, List.pairwise_append] at hadmits
  exact fun c hc => hadmits.2.2 c hc _ List.mem_cons_self

theorem nonce_lt_last (h : ValidChain v (blocks ++ [b])) :
    ∀ c ∈ blocks, c.header.nonce < b.header.nonce :=
  fun c hc => (h.admits_last c.checkpoint (List.mem_cons_of_mem _ (List.mem_map_of_mem hc))).1

/-- The nonces have no gap. -/
theorem nonce_add (h : ValidChain v blocks) {tip : Block} (htip : blocks.getLast? = some tip)
    {i : Nat} (hi : blocks[i]? = some b) :
    b.header.nonce.toNat + blocks.length = tip.header.nonce.toNat + i + 1 := by
  have htip' : (blocks.map Block.header).getLast? = some tip.header := by
    rw [List.getLast?_map, htip, Option.map_some]
  have hi' : (blocks.map Block.header)[i]? = some b.header := by
    rw [List.getElem?_map, hi, Option.map_some]
  have hnonce := h.links.nonce_add htip' hi'
  rw [List.length_map] at hnonce
  exact hnonce

/-- All nonces and rounds are low. -/
theorem low (h : ValidChain v blocks) : ∀ c ∈ lineage blocks, Low c.nonce ∧ Low c.round := by
  intro c hc
  rcases List.mem_cons.mp hc with rfl | hmem
  · exact ⟨by decide, by decide⟩
  · rcases List.mem_map.mp hmem with ⟨b, hb, rfl⟩
    rcases h.timely b hb with ⟨hfits, hround⟩
    have hround' : Low b.header.round := low_of_le_next hfits hround
    -- Measured by the first block of all, the nonce is not greater than the round.
    have hnonce : b.header.nonce.toNat + 0 ≤ b.header.round.toNat + 0 :=
      ((List.pairwise_cons.mp h.admits).1 _ hmem).2
    exact ⟨Nat.lt_of_le_of_lt hnonce hround', hround'⟩

end ValidChain

end HeaderChain

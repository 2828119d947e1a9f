import HeaderChain.Proofs.Detector.Certified
import HeaderChain.Proofs.Detector.Influence
import HeaderChain.Proofs.Detector.Processed
import HeaderChain.Proofs.Detector.Tip
import HeaderChain.Proofs.History.Lineage
import HeaderChain.Proofs.ValidChain

/-!
# Following a Validated Chain

What a detector makes of a chain whose links have been checked.

The validator and the detector look at different things. The one compares each
block with its predecessor, the other with the final checkpoint, which lies
anywhere between the first block of all and the last. But any two blocks of a
valid chain lie above one another by no more nonces than rounds, and this is just
what the gate of place asks for. So wherever finality has got to, the next block
passes.

From then on nothing happens that would make a difference. Each block is the
first of its nonce, so nothing gives way to it in the history or in the table,
and there is nothing else that a fork could be found in. The detector holds the
part of the chain from the final checkpoint on and nothing besides.

## Main definitions

* `Detector.Follows`: A detector holds what is left of a chain.

## Theorems

* `Detector.Follows.gate`, `Detector.Follows.inRange`: The next block passes the
  gates.
* `Detector.Follows.accept`: A detector follows a chain to the next block.
* `Detector.Follows.final_eq`, `Detector.Follows.row_eq`: What is final, and what
  the table holds.
* `Detector.follows_of_validChain`: A detector follows a valid chain all along.
* `Detector.validated_chain_drives`: Where a validated chain leads.
-/

namespace HeaderChain

namespace Detector

/-- A detector holds of a chain what is not below the final checkpoint, and
    nothing else. -/
structure Follows (settings : Settings) (blocks : List Block) (d : Detector) : Prop where
  /-- The checkpoints are those of the chain. -/
  history : d.history.Follows settings.finalDepth (lineage blocks)
  /-- The headers seen are those of the chain. -/
  mem_iff : ∀ o, o ∈ d.table.observations ↔
    o ∈ blocks.map Block.observation ∧ d.final.nonce ≤ o.nonce
  /-- The tip is at the last block. -/
  tip : d.tip = d.last.nonce
  /-- The last block is the one that was processed last. -/
  lastBlockRound : d.lastBlockRound = d.last.round
  /-- Nothing has been proposed. -/
  lastProposed : d.lastProposed = 0
  /-- No fork has been declared. -/
  forced : d.forced = false

theorem follows_genesis (settings : Settings) : genesis.Follows settings [] where
  history := History.follows_genesis _
  mem_iff o := by
    constructor
    · exact fun ho => absurd ho List.not_mem_nil
    · exact fun ho => absurd ho.1 List.not_mem_nil
  tip := rfl
  lastBlockRound := rfl
  lastProposed := rfl
  forced := rfl

namespace Follows

section Step

variable {settings : Settings} {v : Validator} {blocks : List Block} {b : Block} {d : Detector}
  (hf : d.Follows settings blocks) (hc : ValidChain v (blocks ++ [b]))

include hf

theorem provenance_eq {o : Observation} (ho : o ∈ d.table.observations) :
    o.provenance = .processed := by
  rcases List.mem_map.mp ((hf.mem_iff o).mp ho).1 with ⟨b, _, rfl⟩
  rfl

include hc

theorem low_final : Low d.final.nonce ∧ Low d.final.round :=
  hc.front.low _ hf.history.final_mem

omit hf in
theorem low_header : Low b.header.nonce ∧ Low b.header.round := by
  refine hc.low b.checkpoint ?_
  rw [lineage_concat]
  exact List.mem_append_right _ List.mem_cons_self

/-- The next block passes the gates. -/
theorem gate : d.gateFault? settings b.env b.header .processed = none := by
  have hb : b ∈ blocks ++ [b] := List.mem_append_right _ List.mem_cons_self
  rcases hc.admits_last d.final hf.history.final_mem with ⟨hlt, hpace⟩
  rcases hf.low_final hc with ⟨hfnonce, hfround⟩
  rcases low_header hc with ⟨hnonce, hround⟩
  have hlt' : d.final.nonce.toNat < b.header.nonce.toNat := UInt64.lt_iff_toNat_lt.mp hlt
  have hpace' : b.header.nonce.toNat + d.final.round.toNat
      ≤ b.header.round.toNat + d.final.nonce.toNat := hpace
  rw [gateFault?_processed_eq_none_iff, placeFault?_eq_none_iff, distance_of_low hnonce hfnonce,
    distance_of_low hround hfround, signed_of_low hround]
  refine ⟨⟨?_, ?_, (hc.timely b hb).2⟩, hc.signed b hb⟩
  · omega
  · omega

/-- What is computed for it is in range. -/
theorem inRange : d.InRange settings b.event := by
  have hb : b ∈ blocks ++ [b] := List.mem_append_right _ List.mem_cons_self
  rcases hf.low_final hc with ⟨hfnonce, hfround⟩
  rcases low_header hc with ⟨hnonce, hround⟩
  have hunreceived : d.table.Unreceived := by
    intro o ho
    rw [hf.provenance_eq ho]
    exact nofun
  intro n hn
  rw [Block.event, differences, offerDifferences_processed hunreceived, gateDifferences,
    if_pos (.inl rfl), List.append_nil] at hn
  simp only [List.mem_cons, List.not_mem_nil, or_false] at hn
  rcases hn with rfl | rfl | rfl
  · exact fits_distance hround hfround
  · exact fits_distance hnonce hfnonce
  · exact (hc.timely b hb).1

/-- No header of its nonce has been seen. -/
theorem row_eq_nil : d.table.row b.header.nonce = [] := by
  refine List.filter_eq_nil_iff.mpr fun o ho => ?_
  rcases List.mem_map.mp ((hf.mem_iff o).mp ho).1 with ⟨c, hmem, rfl⟩
  rw [beq_iff_eq]
  exact UInt64.ne_of_lt (hc.nonce_lt_last c hmem)

section Accept

variable (hs : d.Sound) (force : Bool)

include hs

theorem history_accept :
    (d.accept settings force b.header b.hash .processed []).history.Follows settings.finalDepth
      (lineage (blocks ++ [b])) := by
  have hbelow : ∀ c ∈ lineage blocks, c.nonce < b.checkpoint.nonce :=
    fun c hmem => (hc.admits_last c hmem).1
  rw [lineage_concat]
  exact hf.history.push hbelow hs.history (low_header hc).1

theorem last_accept :
    (d.accept settings force b.header b.hash .processed []).last = b.checkpoint :=
  hs.last_accept_processed (hf.gate hc) force b.hash

theorem final_le_accept :
    (d.accept settings force b.header b.hash .processed []).final.nonce ≤ b.header.nonce :=
  hs.final_le_accept_processed (hf.gate hc) force b.hash

/-- The table takes the block in, and loses those that the final checkpoint has
    passed. -/
theorem mem_accept (o : Observation) :
    o ∈ (d.accept settings force b.header b.hash .processed []).table.observations ↔
      o ∈ (blocks ++ [b]).map Block.observation ∧
        (d.accept settings force b.header b.hash .processed []).final.nonce ≤ o.nonce := by
  have hup : d.final.nonce
      ≤ (d.accept settings force b.header b.hash .processed []).final.nonce :=
    (History.yieldsTo_settle (d.history.push b.checkpoint) settings.finalDepth).nonce_le
  rw [mem_accept_fresh (hf.row_eq_nil hc), hf.mem_iff, List.map_append, List.map_singleton,
    List.mem_append, List.mem_singleton]
  constructor
  · rintro ⟨⟨hold, _⟩ | rfl, hle, _⟩
    · exact ⟨.inl hold, hle⟩
    · exact ⟨.inr rfl, hle⟩
  · rintro ⟨hold | rfl, hle⟩
    · refine ⟨.inl ⟨hold, UInt64.le_trans hup hle⟩, hle, fun hpremature => ?_⟩
      rcases List.mem_map.mp hold with ⟨c, _, rfl⟩
      exact c.not_received hpremature.1
    · exact ⟨.inr rfl, hf.final_le_accept hc hs force, fun hpremature => b.not_received hpremature.1⟩

/-- The tip is at the block. -/
theorem tip_accept :
    (d.accept settings force b.header b.hash .processed []).tip = b.header.nonce := by
  have htip := tipEstimate_isGreatest (d.accept settings force b.header b.hash .processed [])
  -- Nothing that speaks for a tip lies above the block.
  have hbound : ∀ n, (d.accept settings force b.header b.hash .processed []).Indicates n →
      n ≤ b.header.nonce := by
    rintro n (_ | hproposed | ⟨o, ho⟩)
    · exact hf.final_le_accept hc hs force
    · rw [lastProposed_accept, if_neg (by decide), hf.lastProposed] at hproposed
      exact absurd hproposed (by decide)
    · have hmem := ((hf.mem_accept hc hs force o).mp ho).1
      rw [List.map_append, List.map_singleton] at hmem
      rcases List.mem_append.mp hmem with hold | hnew
      · rcases List.mem_map.mp hold with ⟨c, hblock, rfl⟩
        exact UInt64.le_of_lt (hc.nonce_lt_last c hblock)
      · rw [List.mem_singleton.mp hnew]
        exact UInt64.le_refl _
  -- The block itself speaks for its nonce.
  have hseen : b.observation
      ∈ (d.accept settings force b.header b.hash .processed []).table.observations := by
    refine (hf.mem_accept hc hs force b.observation).mpr ⟨?_, hf.final_le_accept hc hs force⟩
    rw [List.map_append]
    exact List.mem_append_right _ List.mem_cons_self
  exact UInt64.le_antisymm (hbound _ htip.1) (htip.2 (.seen b.observation hseen))

/-- A detector follows a chain to the next block. -/
theorem accept : (d.accept settings false b.header b.hash .processed []).Follows settings
    (blocks ++ [b]) where
  history := hf.history_accept hc hs false
  mem_iff := hf.mem_accept hc hs false
  tip := by
    rw [hf.tip_accept hc hs, hf.last_accept hc hs]
    rfl
  lastBlockRound := by
    rw [lastBlockRound_accept, if_pos rfl, hf.last_accept hc hs]
    rfl
  lastProposed := by
    rw [lastProposed_accept, if_neg (by decide)]
    exact hf.lastProposed
  forced := by
    change (d.forced || false) = false
    rw [hf.forced]
    rfl

end Accept

end Step

section End

variable {settings : Settings} {v : Validator} {blocks : List Block} {b tip : Block} {d : Detector}
  (hf : d.Follows settings blocks)

include hf

theorem last_eq (htip : blocks.getLast? = some tip) : d.last = tip.checkpoint := by
  rcases List.getLast?_eq_some_iff.mp htip with ⟨front, rfl⟩
  have hlast := hf.history.last
  rw [lineage_concat, List.getLast?_concat] at hlast
  exact (Option.some.inj hlast).symm

variable (hc : ValidChain v blocks)

include hc

/-- The final checkpoint is that of the block which has as many blocks above it
    as the depth says. -/
theorem final_eq (htip : blocks.getLast? = some tip) {i : Nat} (hi : blocks[i]? = some b)
    (hdepth : i + 1 + settings.finalDepth.toNat = blocks.length) : d.final = b.checkpoint := by
  have hnonce := hc.nonce_add htip hi
  have hb : b.checkpoint ∈ lineage blocks :=
    List.mem_cons_of_mem _ (List.mem_map_of_mem (List.mem_of_getElem? hi))
  have hlast : d.last.nonce = tip.header.nonce := congrArg Checkpoint.nonce (hf.last_eq htip)
  have hge : b.header.nonce ≤ d.final.nonce := by
    refine hf.history.final_highest b.checkpoint hb ?_
    change b.header.nonce.toNat + settings.finalDepth.toNat ≤ d.last.nonce.toNat
    rw [hlast]
    omega
  have hle : d.final.nonce ≤ b.header.nonce := by
    rcases hf.history.final_deep with hgenesis | hdeep
    · have hzero : d.final = .genesis := hgenesis
      rw [hzero]
      exact UInt64.zero_le
    · change d.final.nonce.toNat + settings.finalDepth.toNat ≤ d.last.nonce.toNat at hdeep
      rw [hlast] at hdeep
      rw [UInt64.le_iff_toNat_le]
      omega
  exact hc.ascending.eq_of_nonce_eq hf.history.final_mem hb (UInt64.le_antisymm hle hge)

/-- If no block has that many above it, the first of all is final. -/
theorem final_eq_genesis (htip : blocks.getLast? = some tip)
    (hdepth : blocks.length ≤ settings.finalDepth.toNat) : d.final = .genesis := by
  rcases hf.history.final_deep with hgenesis | hdeep
  · exact hgenesis
  · rcases List.mem_cons.mp hf.history.final_mem with hgenesis | hmem
    · exact hgenesis
    · rcases List.mem_map.mp hmem with ⟨b, hb, hfinal⟩
      rcases List.getElem?_of_mem hb with ⟨i, hi⟩
      have hnonce := hc.nonce_add htip hi
      have hlast : d.history.last.nonce = tip.header.nonce :=
        congrArg Checkpoint.nonce (hf.last_eq htip)
      have hown : d.history.final.nonce = b.header.nonce :=
        (congrArg Checkpoint.nonce hfinal).symm
      rw [hlast, hown] at hdeep
      omega

/-- Every block from the final one on is alone in its row. -/
theorem row_eq (hs : d.Sound) (hb : b ∈ blocks) (hle : d.final.nonce ≤ b.header.nonce) :
    d.table.row b.header.nonce = [b.observation] := by
  have hseen : b.observation ∈ d.table.row b.header.nonce :=
    HeaderTable.mem_row.mpr ⟨(hf.mem_iff _).mpr ⟨List.mem_map_of_mem hb, hle⟩, rfl⟩
  refine hs.table.toConsistent.row_eq_singleton hseen fun p hp => ?_
  rcases HeaderTable.mem_row.mp hp with ⟨hp, hnonce⟩
  rcases List.mem_map.mp ((hf.mem_iff p).mp hp).1 with ⟨c, hmem, rfl⟩
  -- A chain has one block of each nonce.
  exact Block.observation_eq_of_checkpoint_eq (hc.ascending.eq_of_nonce_eq
    (List.mem_cons_of_mem _ (List.mem_map_of_mem hmem))
    (List.mem_cons_of_mem _ (List.mem_map_of_mem hb)) hnonce)

/-- So no row is forked. -/
theorem check_eq_clear (hs : d.Sound) : d.check.1 = .clear := by
  have hclear : d.table.scan.1 = .clear := by
    refine HeaderTable.verdict_eq_clear_iff.mpr fun nonce => ?_
    cases hrow : d.table.row nonce with
    | nil => rfl
    | cons o rest =>
        have ho : o ∈ d.table.row nonce := by
          rw [hrow]
          exact List.mem_cons_self
        rcases HeaderTable.mem_row.mp ho with ⟨hseen, rfl⟩
        rcases (hf.mem_iff o).mp hseen with ⟨hmem, hle⟩
        rcases List.mem_map.mp hmem with ⟨b, hb, rfl⟩
        rw [← hrow]
        change HeaderTable.fork? (d.table.row b.header.nonce) = none
        rw [hf.row_eq hc hs hb hle]
        exact HeaderTable.fork?_singleton _
  unfold check
  rw [hf.forced]
  exact hclear

end End

end Follows

/-- A detector accepts every block of a valid chain and follows it. -/
theorem follows_of_validChain {v : Validator} {blocks : List Block} (h : ValidChain v blocks)
    (settings : Settings) :
    ∃ d, Reaches settings genesis (blocks.map Block.event) d ∧
      (∀ e ∈ genesis.trace settings (blocks.map Block.event), e.answer = .accepted) ∧
      d.Follows settings blocks := by
  induction blocks using List.reverseRecOn with
  | nil => exact ⟨_, .refl _, fun e he => absurd he List.not_mem_nil, follows_genesis settings⟩
  | append_singleton blocks b ih =>
      rcases ih h.front with ⟨d, hreaches, haccepted, hf⟩
      have hs := hreaches.sound sound_genesis
      have hgate : d.gateFault? settings b.env b.header .processed = none := hf.gate h
      have hstep := step_processed hgate b.hash []
      have hnext := Reaches.step d b.event [] _ (hf.inRange h) (.refl _)
      rw [Block.event, hstep] at hnext
      refine ⟨_, ?_, ?_, hf.accept h hs⟩
      · rw [List.map_append]
        exact hreaches.append hnext
      · intro e he
        rw [List.map_append, trace_append, ← hreaches.eq_run] at he
        rcases List.mem_append.mp he with hold | hnew
        · exact haccepted e hold
        · rw [List.map_singleton, trace_cons] at hnew
          rcases List.mem_cons.mp hnew with rfl | hnone
          · exact congrArg Prod.fst hstep
          · exact absurd hnone List.not_mem_nil

/-- Where a validated chain leads, whatever the validator, the depth and the nonce
    that the chain starts with. Every block is accepted and in range. In the end
    the last checkpoint is that of the last block, and the final one is that of the
    block which lies as many blocks below it as the depth says, or the first of all
    if the chain is not that long. The round of the last block and the estimate of
    the tip are the last block's. Every block from the final checkpoint on is alone
    in its row, as processed, and no fork is found. -/
theorem validated_chain_drives {v : Validator} {blocks : List Block} (h : ValidChain v blocks)
    {tip : Block} (htip : blocks.getLast? = some tip) (settings : Settings) :
    ∃ d, Reaches settings genesis (blocks.map Block.event) d ∧
      (∀ e ∈ genesis.trace settings (blocks.map Block.event), e.answer = .accepted) ∧
      d.last = tip.checkpoint ∧
      (∀ i b, blocks[i]? = some b → i + 1 + settings.finalDepth.toNat = blocks.length →
        d.final = b.checkpoint) ∧
      (blocks.length ≤ settings.finalDepth.toNat → d.final = .genesis) ∧
      d.lastBlockRound = tip.header.round ∧
      d.tip = tip.header.nonce ∧
      (∀ b ∈ blocks, d.final.nonce ≤ b.header.nonce →
        d.table.row b.header.nonce = [b.observation]) ∧
      d.check.1 = .clear := by
  rcases follows_of_validChain h settings with ⟨d, hreaches, haccepted, hf⟩
  have hs := hreaches.sound sound_genesis
  have hlast := hf.last_eq htip
  refine ⟨d, hreaches, haccepted, hlast, fun i b hi hdepth => hf.final_eq h htip hi hdepth,
    hf.final_eq_genesis h htip, ?_, ?_, fun b hb hle => hf.row_eq h hs hb hle,
    hf.check_eq_clear h hs⟩
  · rw [hf.lastBlockRound, hlast]
    rfl
  · rw [hf.tip, hlast]
    rfl

/-- A validator that takes the nonce of a header for its hash. -/
def byNonce : Validator where
  hasher := ⟨fun header => .ok [header.nonce.toUInt8], Sample.filled⟩
  flags := .empty
  verify := fun _ _ => .error "no proofs in use"

/-- A block of that validator's chain. -/
def sampleBlock (nonce round : UInt64) : Block where
  env := Sample.surroundings 10
  header := Sample.headerOn nonce round (Sample.hash (nonce.toUInt8 - 1))
  hash := Sample.hash nonce.toUInt8

/-- A chain of four that starts at the fourth nonce and skips rounds. -/
def fourToSeven : List Block :=
  [sampleBlock 4 4, sampleBlock 5 6, sampleBlock 6 9, sampleBlock 7 11]

/-- At depth two its second block is final, and the three from there on are what
    the table holds. -/
theorem fourToSeven_drives :
    ValidChain byNonce fourToSeven ∧ fourToSeven.getLast? = some (sampleBlock 7 11) ∧
      ∃ d, Reaches lagTwo genesis (fourToSeven.map Block.event) d ∧
        d.last = ⟨7, 11, some (Sample.hash 7)⟩ ∧ d.final = ⟨5, 6, some (Sample.hash 5)⟩ ∧
        d.tip = 7 ∧ d.table.row 4 = [] ∧
        d.table.row 6 = [⟨6, 9, Sample.hash 6, .processed⟩] ∧ d.check.1 = .clear := by
  have hchain : ValidChain byNonce fourToSeven :=
    ⟨by decide +kernel, by decide +kernel, by decide, by decide⟩
  have htip : fourToSeven.getLast? = some (sampleBlock 7 11) := rfl
  rcases validated_chain_drives hchain htip lagTwo with
    ⟨d, hreaches, _, hlast, hfinal, _, _, hestimate, hrow, hclear⟩
  have hrun : d = genesis.run lagTwo (fourToSeven.map Block.event) := hreaches.eq_run
  have hfinal' : d.final = (sampleBlock 5 6).checkpoint := hfinal 1 _ rfl rfl
  refine ⟨hchain, htip, d, hreaches, hlast, hfinal', hestimate, ?_, ?_, hclear⟩
  · rw [hrun]
    decide
  · have hthird : sampleBlock 6 9 ∈ fourToSeven := List.mem_of_getElem? (i := 2) rfl
    refine hrow (sampleBlock 6 9) hthird ?_
    rw [hfinal']
    decide

end Detector

end HeaderChain

import HeaderChain.Proofs.Detector.Tip
import HeaderChain.Proofs.History.Rounds

/-!
# No Inflated Nonces

How high a detector can be made to look.

A header may claim any nonce. If the estimate of the tip followed it there, a
single header would make the node believe that it is far behind. What stands
against this is the gate of place, but that gate says less than it seems to. It
bounds the nonces that a header has gained since the final checkpoint by the
rounds that have passed since then, and the final checkpoint moves. Nothing is
said about the nonce itself.

The absolute bound comes from following both through a run. A chain starts with
as many nonces as rounds. If the final checkpoint has no more nonces than rounds,
then neither does a header that passes the gate, because it gains no more of the
one than of the other. The round of that header is not beyond the next one, so
its nonce is not either. And everything else that a detector keeps was a header
once, or a certified ancestor below one, or is copied from one of these.

The gate compares words as signed numbers. So that the rounds are low is carried
along; of the nonces it follows.

## Main definitions

* `Event.roundAsked?`: The round that the detector asks for in an operation.
* `Event.ancestors`: The certified ancestors that come with an operation.
* `Modest`: A nonce is not ahead of its round and not above a ceiling.
* `Detector.Capped`: Whatever a detector keeps is modest.

## Theorems

* `Detector.Capped.header`: What passes the gates of a capped detector is modest.
* `Detector.Effect.capped`: Every operation keeps a detector capped.
* `Detector.nonces_within_rounds`: No nonce in a reachable state is ahead of its
  round or beyond the round after the latest that was asked for.
-/

namespace HeaderChain

/-- The round that the detector asks for in an operation. An offer without a
    header or without a hash is turned away before that. -/
def Event.roundAsked? : Event → Option Int64
  | .offer env ⟨some _, some _, _, _⟩ => some env.round
  | .retreatIfIdle round => some round
  | _ => none

/-- The certified ancestors that come with an operation. -/
def Event.ancestors : Event → List Ancestor
  | .offer _ o => o.ancestors
  | _ => []

/-- A nonce is not ahead of its round, which is low, and not above a ceiling. -/
structure Modest (ceiling : Int) (nonce round : UInt64) : Prop where
  /-- The nonce is not ahead. -/
  le_round : nonce ≤ round
  /-- The round is low. -/
  round_low : Low round
  /-- The nonce is not above the ceiling. -/
  le_ceiling : (nonce.toNat : Int) ≤ ceiling

theorem Modest.nonce_low {ceiling : Int} {nonce round : UInt64} (h : Modest ceiling nonce round) :
    Low nonce :=
  Nat.lt_of_le_of_lt (UInt64.le_iff_toNat_le.mp h.le_round) h.round_low

namespace Detector

/-- Whatever a detector keeps is modest. -/
structure Capped (ceiling : Int) (d : Detector) : Prop where
  /-- The headers seen are. -/
  seen : ∀ o ∈ d.table.observations, Modest ceiling o.nonce o.round
  /-- The checkpoints are. -/
  marks : ∀ c ∈ d.history.marks, Modest ceiling c.nonce c.round
  /-- The last proposal is not above the ceiling. -/
  proposed_le : (d.lastProposed.toNat : Int) ≤ ceiling
  /-- Nor is the tip. -/
  tip_le : (d.tip.toNat : Int) ≤ ceiling

theorem capped_genesis {ceiling : Int} (h : 0 ≤ ceiling) : genesis.Capped ceiling where
  seen _ ho := absurd ho List.not_mem_nil
  marks c hc := by
    have hgenesis : ∀ c ∈ genesis.history.marks, c = Checkpoint.genesis := by decide
    rw [hgenesis c hc]
    exact ⟨by decide, by decide, h⟩
  proposed_le := h
  tip_le := h

variable {settings : Settings} {ceiling : Int} {d d' : Detector} {event : Event}
  {events : List Event}

namespace Capped

variable (hd : d.Capped ceiling)

include hd

theorem final : Modest ceiling d.final.nonce d.final.round :=
  hd.marks _ List.mem_cons_self

theorem last : Modest ceiling d.last.nonce d.last.round :=
  hd.marks _ d.history.last_mem_marks

/-- What passes the gates is modest, if the next round is not above the
    ceiling. -/
theorem header {env : Surroundings} {header : Header} {provenance : Provenance}
    (hgate : d.gateFault? settings env header provenance = none)
    (hnext : env.round.toInt + 1 ≤ ceiling) : Modest ceiling header.nonce header.round := by
  have hnonce : Low header.nonce := (final_lt_of_gate hd.final.nonce_low hgate).2
  have hround : Low header.round := (final_round_lt_of_gate hd.final.round_low hgate).2
  rcases placed_of_gate hgate with ⟨_, hpace, hdue⟩
  rw [distance_of_low hnonce hd.final.nonce_low, distance_of_low hround hd.final.round_low] at hpace
  rw [signed_of_low hround] at hdue
  -- The final checkpoint has no nonces to spare, and the header gains no more of
  -- them than rounds.
  have hfinal := UInt64.le_iff_toNat_le.mp hd.final.le_round
  have hle : header.nonce.toNat ≤ header.round.toNat := by omega
  exact ⟨UInt64.le_iff_toNat_le.mpr hle, hround, by omega⟩

/-- A nonce that speaks for a tip is not above the ceiling. -/
theorem indicates_le {n : UInt64} (hn : d.Indicates n) : (n.toNat : Int) ≤ ceiling := by
  rcases hn with _ | hpos | ⟨o, ho⟩
  · exact hd.final.le_ceiling
  · have hone : (1 : UInt64) ≤ d.lastProposed := UInt64.le_iff_toNat_le.mpr hpos
    have hbelow : (d.lastProposed - 1).toNat ≤ d.lastProposed.toNat := by
      rw [UInt64.toNat_sub_of_le _ _ hone]
      exact Nat.sub_le _ _
    have hproposed := hd.proposed_le
    omega
  · exact (hd.seen o ho).le_ceiling

/-- Estimating the tip anew does not take it above the ceiling. -/
theorem estimateTip : d.estimateTip.Capped ceiling where
  seen := hd.seen
  marks := hd.marks
  proposed_le := hd.proposed_le
  tip_le := hd.indicates_le d.tipEstimate_isGreatest.1

/-- Dropping headers and choosing among the checkpoints adds nothing. -/
theorem shrink (hseen : ∀ o ∈ d'.table.observations, o ∈ d.table.observations)
    (hmarks : d'.history.marks ⊆ d.history.marks) (hproposed : d'.lastProposed = d.lastProposed)
    (htip : d'.tip = d.tip) : d'.Capped ceiling where
  seen o ho := hd.seen o (hseen o ho)
  marks c hc := hd.marks c (hmarks hc)
  proposed_le := by
    rw [hproposed]
    exact hd.proposed_le
  tip_le := by
    rw [htip]
    exact hd.tip_le

theorem tidy : d.tidy.Capped ceiling :=
  hd.shrink (fun _ ho => (HeaderTable.mem_tidy.mp ho).1) (History.marks_filter _ _) rfl rfl

/-- A retreat copies a nonce of the checkpoints. -/
theorem retreat : d.retreat.Capped ceiling where
  seen := hd.seen
  marks := hd.marks
  proposed_le := hd.last.le_ceiling
  tip_le := hd.last.le_ceiling

end Capped

/-- Taking in a header that is modest, with ancestors whose nonces are not ahead of
    their rounds, keeps a detector capped. -/
theorem Capped.takeIn (hd : d.Capped ceiling) {header : Header}
    (hheader : Modest ceiling header.nonce header.round) {ancestors : List Ancestor}
    (hancestors : ∀ a ∈ ancestors, a.nonce ≤ a.round ∧ Low a.round) (force : Bool)
    (hash : HeaderHash) (provenance : Provenance) :
    (d.takeIn settings force header hash provenance ancestors).Capped ceiling := by
  -- An ancestor in the window lies below the header, and so below the ceiling.
  have hwindow : ∀ a ∈ d.window header ancestors, Modest ceiling a.nonce a.round := by
    intro a ha
    rcases mem_window ha with ⟨hmem, _, hbelow⟩
    have hbelow' := UInt64.lt_iff_toNat_lt.mp hbelow
    have hle := hheader.le_ceiling
    exact ⟨(hancestors a hmem).1, (hancestors a hmem).2, by omega⟩
  constructor
  · exact forall_mem_takeIn
      (HeaderTable.persists_place fun nonce round _ => Modest ceiling nonce round) hd.seen
      (fun _ => hheader) fun _ => hwindow
  · rw [history_takeIn]
    split
    · intro c hc
      rcases List.mem_append.mp (History.marks_commit _ _ _ _ hc) with hnew | hold
      · rcases List.mem_map.mp hnew with ⟨a, ha, rfl⟩
        exact hwindow a ha
      · rcases List.mem_cons.mp hold with rfl | hold
        · exact hheader
        · exact hd.marks c hold
    · exact hd.marks
  · cases provenance with
    | proposed => exact hheader.le_ceiling
    | _ => exact hd.proposed_le
  · cases provenance <;> exact hd.tip_le

/-- Every operation keeps a detector capped, if it asks for no round that the
    ceiling does not leave room for and brings no ancestor ahead of its rounds. -/
theorem Effect.capped {answer : Answer} (h : Effect settings d event answer d')
    (hd : d.Capped ceiling) (hceiling : 0 ≤ ceiling)
    (hrounds : ∀ round ∈ event.roundAsked?, round.toInt + 1 ≤ ceiling)
    (hancestors : ∀ a ∈ event.ancestors, a.nonce ≤ a.round ∧ Low a.round) : d'.Capped ceiling := by
  cases h with
  | accept env o header hash force hheader hhash hgate _ =>
      have hnext : env.round.toInt + 1 ≤ ceiling := by
        refine hrounds env.round ?_
        rcases o with ⟨oheader, ohash, provenance, ancestors⟩
        cases hheader
        cases hhash
        exact rfl
      exact (hd.takeIn (hd.header hgate hnext) hancestors force hash o.provenance).tidy.estimateTip
  | idle _ _ _ => exact hd
  | rollBack _ _ =>
      exact hd.shrink (fun _ ho => HeaderTable.mem_of_mem_keep ho) (History.marks_filter _ _) rfl rfl
  | scan _ =>
      exact hd.shrink (fun _ ho => HeaderTable.mem_of_mem_keep ho) (List.Subset.refl _) rfl rfl
  | retreat _ _ => exact hd.retreat
  | clearForced => exact hd.shrink (fun _ ho => ho) (List.Subset.refl _) rfl rfl
  | restart => exact capped_genesis hceiling
  | settleAll =>
      have hsettled : { d with history := d.history.settleAll }.Capped ceiling :=
        hd.shrink (fun _ ho => ho) (History.marks_settleAll _) rfl rfl
      exact hsettled.tidy

/-- No nonce is inflated. Take any run from the first block on in which the
    certified ancestors have no more nonces than rounds, and low rounds, and let no
    round that is asked for be later than `latest`. However high the nonces and
    rounds of the headers offered, every header of the table and every checkpoint,
    the final and the last one among them, has no more nonces than rounds, and a
    low round. None of their nonces, nor that of the last proposal, nor the
    estimate of the tip, lies beyond the round after `latest`, or above zero if
    that is negative. -/
theorem nonces_within_rounds {d : Detector} {latest : Int} (h : Reaches settings genesis events d)
    (hancestors : ∀ event ∈ events, ∀ a ∈ event.ancestors, a.nonce ≤ a.round ∧ Low a.round)
    (hlatest : ∀ event ∈ events, ∀ round ∈ event.roundAsked?, round.toInt ≤ latest) :
    (∀ o ∈ d.table.observations, o.nonce ≤ o.round ∧ o.round.toNat < Nat.pow 2 63 ∧
        (o.nonce.toNat : Int) ≤ max 0 (latest + 1)) ∧
      (∀ c, c ∈ d.history.checkpoints ∨ c = d.final ∨ c = d.last →
        c.nonce ≤ c.round ∧ c.round.toNat < Nat.pow 2 63 ∧
          (c.nonce.toNat : Int) ≤ max 0 (latest + 1)) ∧
      (d.lastProposed.toNat : Int) ≤ max 0 (latest + 1) ∧
      (d.tip.toNat : Int) ≤ max 0 (latest + 1) := by
  have hd : d.Capped (max 0 (latest + 1)) := by
    refine h.invariant (capped_genesis (by omega)) fun u event hvisit hu => ?_
    refine (effect_step settings u event).capped hu (by omega) (fun round hround => ?_)
      (hancestors event hvisit.mem)
    have hle := hlatest event hvisit.mem round hround
    omega
  refine ⟨fun o ho => ?_, fun c hc => ?_, hd.proposed_le, hd.tip_le⟩
  · have hmodest := hd.seen o ho
    exact ⟨hmodest.le_round, hmodest.round_low, hmodest.le_ceiling⟩
  · have hmodest : Modest (max 0 (latest + 1)) c.nonce c.round := by
      rcases hc with hmem | rfl | rfl
      · exact hd.marks c (List.mem_cons_of_mem _ hmem)
      · exact hd.final
      · exact hd.last
    exact ⟨hmodest.le_round, hmodest.round_low, hmodest.le_ceiling⟩

/-- A proposal as high as the rounds allow, a header that brings an ancestor of an
    earlier round, one that is offered again in a later round, and two nonces at the
    edges of the signed words. -/
def reachingUp : List Event :=
  [Sample.offer 11 11 11 .proposed [], Sample.offer 2 10 2 .processed [],
    Sample.offer 4 10 4 .processed [⟨3, 7, Sample.hash 9⟩], Sample.offer 5 9 5 .received [],
    Sample.offer 5 11 5 .processed [], Sample.offer 0x7FFFFFFFFFFFFFFF 11 6 .received [],
    Sample.offer 0xFFFFFFFFFFFFFFFF 11 7 .received []]

/-- The proposal reaches the round after the one in which all is offered. The
    header offered again keeps its first round in the table and not among the
    checkpoints. The last two are turned away. -/
theorem nonces_of_reachingUp :
    ∃ d, Reaches .standard genesis reachingUp d ∧
      d.table.row 5 = [⟨5, 9, Sample.hash 5, .processed⟩] ∧
      d.last = ⟨5, 11, some (Sample.hash 5)⟩ ∧ d.final = ⟨4, 10, some (Sample.hash 4)⟩ ∧
      d.lastProposed = 11 ∧ d.tip = 10 ∧ (d.lastProposed.toNat : Int) ≤ max 0 (10 + 1) ∧
      (d.tip.toNat : Int) ≤ max 0 (10 + 1) ∧ ∀ o ∈ d.table.observations, o.nonce ≤ o.round := by
  have h : Reaches .standard genesis reachingUp (genesis.run .standard reachingUp) :=
    reaches_iff.mpr ⟨by decide +kernel, rfl⟩
  have hancestors : ∀ event ∈ reachingUp, ∀ a ∈ event.ancestors,
      a.nonce ≤ a.round ∧ Low a.round := by decide +kernel
  have hasked : ∀ event ∈ reachingUp, event.roundAsked? = some 10 := by decide +kernel
  have hlatest : ∀ event ∈ reachingUp, ∀ round ∈ event.roundAsked?, round.toInt ≤ 10 := by
    intro event hevent round hround
    rw [hasked event hevent] at hround
    rw [← Option.some.inj hround]
    decide
  rcases nonces_within_rounds h hancestors hlatest with ⟨hseen, _, hproposed, htip⟩
  exact ⟨_, h, by decide +kernel, by decide +kernel, by decide +kernel, by decide +kernel,
    by decide +kernel, hproposed, htip, fun o ho => (hseen o ho).1⟩

end Detector

end HeaderChain

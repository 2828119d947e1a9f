import HeaderChain.Proofs.Detector.Inflation
import HeaderChain.Proofs.Detector.Origin

/-!
# Admission

Which headers are taken in, and what is said of the others.

The gates compare nonces and rounds as signed words, and a word of the upper half is read as
a negative number. So it has to be shown that the gates mean what they say: that a header
passes them exactly if it satisfies the conditions as they would be written down for whole
numbers. This rests on the final checkpoint, whose nonce and round stay in the lower half
through any run in which the certified ancestors are of low rounds. From there a round of the
upper half is caught by the first comparison, and a nonce of the upper half by the second
one. That the conditions exclude such a nonce as well is a matter of range: if it were not too
far ahead of the rounds, then its distance would not fit a word.

The order of the checks is part of what a caller sees, because the first objection is the one
reported. Here they are listed in that order, away from the gates that they belong to.

A header that raises no objection is taken in, with one exception. A proposal that finds the
node stuck asks whether this is a check round, and there may be no telling. Settings that are
read from a configuration do not allow this, because their modulus is positive.

## Main definitions

* `Detector.Admissible`: The conditions for a header, in whole numbers.
* `Detector.Objection`, `Detector.objections`: What may be said against an offer, in order.
* `Detector.firstObjection?`: What is said against it.

## Theorems

* `Detector.Reaches.low_rounds`: The checkpoints of a run are of low rounds.
* `Detector.admissible_iff`: The gates let the admissible headers pass.
* `Detector.firstObjection?_eq_gateFault?`: The gates raise the first objection.
* `Detector.admission_exact`: What an offer is answered in a reachable state.
-/

namespace HeaderChain

namespace Detector

/-- The conditions for taking in a header, in whole numbers. -/
structure Admissible (settings : Settings) (env : Surroundings) (d : Detector) (header : Header)
    (provenance : Provenance) : Prop where
  /-- The round is not below that of the final checkpoint. -/
  round_ge : d.final.round.toNat ≤ header.round.toNat
  /-- It is not beyond the next one. -/
  round_le : (header.round.toNat : Int) ≤ env.round.toInt + 1
  /-- The nonce is above that of the final checkpoint. -/
  nonce_gt : d.final.nonce.toNat < header.nonce.toNat
  /-- The header has not gained more nonces than rounds since then. -/
  pace : (header.nonce.toNat : Int) - d.final.nonce.toNat
    ≤ header.round.toNat - d.final.round.toNat
  /-- A proposal does not build on a blacklisted header. -/
  unlisted : provenance = .proposed → env.blacklisted header.prevHash = false
  /-- Its seed verifies. -/
  seeded : provenance = .proposed → env.acceptsSeed header = true
  /-- A received or processed header is signed. -/
  signed : provenance = .received ∨ provenance = .processed → header.isSigned = true
  /-- One that is not processed is not too long past. -/
  recent : provenance ≠ .processed →
    env.round.toInt - settings.blockFinality.toInt ≤ header.round.toNat

/-- Something that may be said against an offer. -/
structure Objection where
  /-- Whether it applies. -/
  applies : Bool
  /-- What is said. -/
  rejection : Rejection

/-- The first objection that applies. -/
def Objection.first? (os : List Objection) : Option Rejection :=
  (os.find? (·.applies)).map (·.rejection)

/-- What may be said against an offer, in the order in which it is looked at. Nonces and
    rounds are read as signed. -/
def objections (settings : Settings) (env : Surroundings) (d : Detector) (o : Offer) :
    List Objection :=
  match o.header, o.hash with
  | none, _ => [⟨true, .noHeader⟩]
  | some _, none => [⟨true, .noHash⟩]
  | some header, some _ =>
    [⟨HeaderChain.signed header.round < HeaderChain.signed d.final.round,
        .roundTooLow header.round (HeaderChain.signed d.final.round)⟩,
      ⟨HeaderChain.signed header.nonce ≤ HeaderChain.signed d.final.nonce,
        .nonceTooLow header.nonce d.final.nonce⟩,
      ⟨env.round.toInt + 1 < HeaderChain.signed header.round,
        .roundTooHigh header.round (env.round.toInt + 1)⟩,
      ⟨distance header.round d.final.round < distance header.nonce d.final.nonce,
        .nonceTooHigh (distance header.round d.final.round)
          (distance header.nonce d.final.nonce)⟩,
      ⟨o.provenance = .proposed && env.blacklisted header.prevHash,
        .blacklisted header.prevHash⟩,
      ⟨o.provenance = .proposed && !env.acceptsSeed header, .badSeed⟩,
      ⟨(o.provenance = .received || o.provenance = .processed) && !header.isSigned, .notSigned⟩,
      ⟨o.provenance ≠ .processed && HeaderChain.signed header.round
          < env.round.toInt - settings.blockFinality.toInt,
        .roundTooLow header.round (env.round.toInt - settings.blockFinality.toInt)⟩]

/-- What is said against an offer. -/
def firstObjection? (settings : Settings) (env : Surroundings) (d : Detector) (o : Offer) :
    Option Rejection :=
  Objection.first? (d.objections settings env o)

variable {settings : Settings} {env : Surroundings} {d d' : Detector} {event : Event}
  {events : List Event} {o : Offer} {header : Header} {hash : HeaderHash}
  {provenance : Provenance}

/-- An operation that brings no ancestor of a high round leaves the checkpoints with low
    rounds. -/
theorem low_rounds_step (hd : ∀ c ∈ d.history.marks, Low c.round)
    (hancestors : ∀ a ∈ event.ancestors, Low a.round) :
    ∀ c ∈ (d.step settings event).2.history.marks, Low c.round := by
  by_cases hrestart : event = .restart
  · subst hrestart
    have hgenesis : ∀ c ∈ genesis.history.marks, Low c.round := by decide
    exact hgenesis
  · intro c hc
    rcases (effect_step settings d event).mark_cases rfl hrestart hc with hold | hconfirmed
    · exact hd c hold
    · cases hconfirmed with
      | header htakes =>
          -- A header that passes the gates is of a later round than the final checkpoint.
          rcases htakes with ⟨⟨env, rfl⟩, haccepted⟩
          rcases step_of_accepted haccepted with ⟨_, _, _, hheader, _, hgate, _⟩
          cases hheader
          exact (final_round_lt_of_gate (hd _ List.mem_cons_self) hgate).2
      | ancestor hcertifies =>
          rcases hcertifies with ⟨_, _, _, ⟨⟨_, rfl⟩, _⟩, hmem, _⟩
          exact hancestors _ hmem

/-- The checkpoints of a run that brings none are of low rounds. -/
theorem Reaches.low_rounds (h : Reaches settings genesis events d)
    (hancestors : ∀ event ∈ events, ∀ a ∈ event.ancestors, Low a.round) :
    ∀ c ∈ d.history.marks, Low c.round := by
  have hgenesis : ∀ c ∈ genesis.history.marks, Low c.round := by decide
  exact h.invariant (P := fun d => ∀ c ∈ d.history.marks, Low c.round) hgenesis
    fun u event hvisit hu => low_rounds_step hu (hancestors event hvisit.mem)

-- The gates in whole numbers.

/-- What the gate of origin lets pass. -/
theorem originFault?_eq_none_iff :
    originFault? env header provenance = none ↔
      (provenance = .proposed → env.blacklisted header.prevHash = false) ∧
        (provenance = .proposed → env.acceptsSeed header = true) ∧
        (provenance = .received ∨ provenance = .processed → header.isSigned = true) := by
  cases provenance <;> grind [originFault?]

/-- What the gate of age lets pass. -/
theorem ageFault?_eq_none_iff {round : Int64} :
    ageFault? settings round header provenance = none ↔
      (provenance ≠ .processed →
        round.toInt - settings.blockFinality.toInt ≤ HeaderChain.signed header.round) := by
  cases provenance <;> grind [ageFault?]

/-- An admissible header is low, unless its distance does not fit a word. -/
theorem Admissible.low (h : Admissible settings env d header provenance)
    (hnext : Fits (env.round.toInt + 1)) (hdistance : Fits (distance header.nonce d.final.nonce))
    (hlow : Low d.final.nonce) : Low header.nonce ∧ Low header.round := by
  have hround : Low header.round := low_of_le_next hnext h.round_le
  refine ⟨Decidable.byContradiction fun hhigh => ?_, hround⟩
  have hmin : Int64.minValue.toInt = -(Nat.pow 2 63 : Nat) := by decide
  have hsize : UInt64.size = 2 * Nat.pow 2 63 := by decide
  have hfits := hdistance.1
  have hpace := h.pace
  rw [distance, signed_of_low hlow, hmin] at hfits
  unfold HeaderChain.signed at hfits
  unfold Low at hround hhigh
  rw [if_neg hhigh] at hfits
  omega

/-- The gates let the admissible headers pass. -/
theorem admissible_iff (hnext : Fits (env.round.toInt + 1))
    (hdistance : Fits (distance header.nonce d.final.nonce)) (hnonce : Low d.final.nonce)
    (hround : Low d.final.round) :
    Admissible settings env d header provenance ↔
      d.gateFault? settings env header provenance = none := by
  unfold gateFault?
  rw [Option.or_eq_none_iff, Option.or_eq_none_iff, placeFault?_eq_none_iff,
    originFault?_eq_none_iff, ageFault?_eq_none_iff]
  constructor
  · intro h
    rcases h.low hnext hdistance hnonce with ⟨hheadernonce, hheaderround⟩
    rw [distance_of_low hheadernonce hnonce, distance_of_low hheaderround hround,
      signed_of_low hheaderround]
    have hgt := h.nonce_gt
    exact ⟨⟨by omega, h.pace, h.round_le⟩, ⟨h.unlisted, h.seeded, h.signed⟩, h.recent⟩
  · rintro ⟨⟨hahead, hpace, hdue⟩, ⟨hunlisted, hseeded, hsigned⟩, hrecent⟩
    have hheadernonce : Low header.nonce := low_of_distance_pos hnonce hahead
    have hheaderround : Low header.round :=
      low_of_distance_pos hround (Int.lt_of_lt_of_le hahead hpace)
    rw [distance_of_low hheadernonce hnonce] at hahead hpace
    rw [distance_of_low hheaderround hround] at hpace
    rw [signed_of_low hheaderround] at hdue hrecent
    exact ⟨by omega, hdue, by omega, hpace, hunlisted, hseeded, hsigned, hrecent⟩

theorem Objection.first?_cons (applies : Bool) (rejection : Rejection) (os : List Objection) :
    first? (⟨applies, rejection⟩ :: os)
      = if applies = true then some rejection else first? os := by
  cases applies <;> rfl

theorem or_of_ite {c : Prop} [Decidable c] (a : Rejection) (x y : Option Rejection) :
    (if c then some a else x).or y = if c then some a else x.or y := by
  split <;> rfl

/-- The gates raise the first objection. -/
theorem firstObjection?_eq_gateFault? (hheader : o.header = some header)
    (hhash : o.hash = some hash) :
    d.firstObjection? settings env o = d.gateFault? settings env header o.provenance := by
  unfold firstObjection? objections gateFault? placeFault?
  simp only [hheader, hhash, Objection.first?_cons, or_of_ite, Option.none_or, decide_eq_true_eq,
    distance_neg_iff, distance_nonpos_iff]
  -- What remains to be looked at is what the provenance asks for.
  cases o.provenance <;> simp [originFault?, ageFault?, or_of_ite, Objection.first?]

-- What an offer is answered.

/-- The numbers computed at the gates fit a word if all that an offer computes do. -/
theorem fits_gateDifferences (hrange : d.InRange settings (.offer env o))
    (hheader : o.header = some header) (hhash : o.hash = some hash) :
    Fits (env.round.toInt + 1) ∧ Fits (distance header.nonce d.final.nonce) := by
  have hgates : ∀ n ∈ d.gateDifferences settings env header o.provenance, Fits n := by
    intro n hn
    refine hrange n ?_
    simp only [differences, offerDifferences, hheader, hhash]
    exact List.mem_append_left _ hn
  constructor
  · refine hgates _ (List.mem_append_left _ ?_)
    exact List.mem_cons_of_mem _ (List.mem_cons_of_mem _ List.mem_cons_self)
  · exact hgates _ (List.mem_append_left _ (List.mem_cons_of_mem _ List.mem_cons_self))

/-- There is no telling whether to declare a fork if a proposal finds the node stuck and the
    remainder that it asks for does not exist. -/
theorem forces_eq_error_iff {fault : RemainderFault} :
    d.forces settings env header provenance = .error fault ↔
      provenance = .proposed ∧ d.isStuck settings header = true ∧
        Settings.remainderFault? env.round settings.checkModulus = some fault := by
  unfold forces Settings.isCheckRound
  by_cases hstuck : provenance = .proposed ∧ d.isStuck settings header = true
  · rw [if_pos hstuck, and_iff_right hstuck.1, and_iff_right hstuck.2]
    cases Settings.remainderFault? env.round settings.checkModulus <;>
      simp only [reduceCtorEq, Except.error.injEq, Option.some.injEq]
  · rw [if_neg hstuck, ← and_assoc]
    simp only [hstuck, reduceCtorEq, false_and]

/-- What the offer of a header and its hash is answered. -/
theorem answer_offer (hheader : o.header = some header) (hhash : o.hash = some hash) :
    (d.step settings (.offer env o)).1
      = match d.gateFault? settings env header o.provenance with
        | some rejection => .rejected rejection
        | none =>
          match d.forces settings env header o.provenance with
          | .error fault => .faulted fault
          | .ok _ => .accepted := by
  simp only [step, Detector.offer, hheader, hhash]
  cases d.gateFault? settings env header o.provenance with
  | some rejection => rfl
  | none => cases d.forces settings env header o.provenance <;> rfl

/-- Without a header or without a hash an offer is rejected, and that is said of it. -/
theorem answer_of_missing (hmissing : o.header = none ∨ o.hash = none) :
    ∃ rejection, (d.step settings (.offer env o)).1 = .rejected rejection ∧
      d.firstObjection? settings env o = some rejection := by
  cases hheader : o.header with
  | none =>
      refine ⟨.noHeader, ?_, ?_⟩
      · simp only [step, Detector.offer, hheader]
      · simp only [firstObjection?, objections, hheader]
        rfl
  | some header =>
      have hhash : o.hash = none := by
        refine hmissing.resolve_left fun hnone => ?_
        exact Option.some_ne_none header (hheader.symm.trans hnone)
      refine ⟨.noHash, ?_, ?_⟩
      · simp only [step, Detector.offer, hheader, hhash]
      · simp only [firstObjection?, objections, hheader, hhash]
        rfl

/-- The three ways in which an offer is answered: with the first objection, and if there is
    none, with a missing remainder or by accepting the header. -/
theorem answer_cases (settings : Settings) (env : Surroundings) (d : Detector) (o : Offer) :
    (∃ rejection, (d.step settings (.offer env o)).1 = .rejected rejection ∧
        d.firstObjection? settings env o = some rejection) ∨
      ∃ header hash, o.header = some header ∧ o.hash = some hash ∧
        d.gateFault? settings env header o.provenance = none ∧
        d.firstObjection? settings env o = none ∧
        ((∃ fault, (d.step settings (.offer env o)).1 = .faulted fault ∧
            d.forces settings env header o.provenance = .error fault) ∨
          ((d.step settings (.offer env o)).1 = .accepted ∧
            ∀ fault, d.forces settings env header o.provenance ≠ .error fault)) := by
  cases hheader : o.header with
  | none => exact .inl (answer_of_missing (.inl hheader))
  | some header =>
      cases hhash : o.hash with
      | none => exact .inl (answer_of_missing (.inr hhash))
      | some hash =>
          rw [answer_offer hheader hhash, firstObjection?_eq_gateFault? hheader hhash]
          cases hgate : d.gateFault? settings env header o.provenance with
          | some rejection => exact .inl ⟨rejection, rfl, rfl⟩
          | none =>
              refine .inr ⟨header, hash, rfl, rfl, hgate, rfl, ?_⟩
              cases d.forces settings env header o.provenance with
              | error fault => exact .inl ⟨fault, rfl, rfl⟩
              | ok force => exact .inr ⟨rfl, nofun⟩

theorem rejected_iff {rejection : Rejection} :
    (d.step settings (.offer env o)).1 = .rejected rejection ↔
      d.firstObjection? settings env o = some rejection := by
  rcases answer_cases settings env d o with
    ⟨r, hanswer, hfirst⟩ | ⟨_, _, _, _, _, hfirst, ⟨fault, hanswer, _⟩ | ⟨hanswer, _⟩⟩
  · rw [hanswer, hfirst, Answer.rejected.injEq, Option.some.injEq]
  · rw [hanswer, hfirst]
    exact ⟨nofun, nofun⟩
  · rw [hanswer, hfirst]
    exact ⟨nofun, nofun⟩

theorem firstObjection?_eq_none_iff :
    d.firstObjection? settings env o = none ↔
      ∃ header hash, o.header = some header ∧ o.hash = some hash ∧
        d.gateFault? settings env header o.provenance = none := by
  constructor
  · intro hnone
    rcases answer_cases settings env d o with
      ⟨r, _, hfirst⟩ | ⟨header, hash, hheader, hhash, hgate, _⟩
    · exact absurd (hnone.symm.trans hfirst) nofun
    · exact ⟨header, hash, hheader, hhash, hgate⟩
  · rintro ⟨header, hash, hheader, hhash, hgate⟩
    rw [firstObjection?_eq_gateFault? hheader hhash]
    exact hgate

theorem faulted_iff {fault : RemainderFault} :
    (d.step settings (.offer env o)).1 = .faulted fault ↔
      ∃ header hash, o.header = some header ∧ o.hash = some hash ∧
        d.gateFault? settings env header o.provenance = none ∧
        d.forces settings env header o.provenance = .error fault := by
  constructor
  · intro hfaulted
    rcases answer_cases settings env d o with
      ⟨r, hanswer, _⟩ |
        ⟨header, hash, hheader, hhash, hgate, _, ⟨f, hanswer, hforces⟩ | ⟨hanswer, _⟩⟩
    · exact absurd (hanswer.symm.trans hfaulted) nofun
    · cases hanswer.symm.trans hfaulted
      exact ⟨header, hash, hheader, hhash, hgate, hforces⟩
    · exact absurd (hanswer.symm.trans hfaulted) nofun
  · rintro ⟨header, hash, hheader, hhash, hgate, hforces⟩
    simp only [answer_offer hheader hhash, hgate, hforces]

theorem accepted_iff :
    (d.step settings (.offer env o)).1 = .accepted ↔
      ∃ header hash, o.header = some header ∧ o.hash = some hash ∧
        d.gateFault? settings env header o.provenance = none ∧
        ∀ fault, d.forces settings env header o.provenance ≠ .error fault := by
  constructor
  · intro haccepted
    rcases step_of_accepted haccepted with ⟨header, hash, force, hheader, hhash, hgate, hforces, _⟩
    exact ⟨header, hash, hheader, hhash, hgate, hforces ▸ nofun⟩
  · rintro ⟨header, hash, hheader, hhash, hgate, hforces⟩
    rw [answer_offer hheader hhash, hgate]
    cases hfault : d.forces settings env header o.provenance with
    | error fault => exact absurd hfault (hforces fault)
    | ok force => rfl

/-- What an offer is answered in a reachable state of a run whose certified ancestors are of
    low rounds, as long as all numbers fit a word. It is accepted if there is a header, with
    a hash, that is admissible, unless that is a proposal which finds the node stuck in a
    round whose remainder does not exist. Otherwise there is an objection, and the first one
    is reported, or the remainder is. Then the detector is left as it was. In particular no
    header of a high nonce or round is accepted. -/
theorem admission_exact (h : Reaches settings genesis events d)
    (hancestors : ∀ event ∈ events, ∀ a ∈ event.ancestors, a.round.toNat < Nat.pow 2 63)
    (hrange : d.InRange settings (.offer env o)) :
    ((d.step settings (.offer env o)).1 = .accepted ↔
      ∃ header hash, o.header = some header ∧ o.hash = some hash ∧
        Admissible settings env d header o.provenance ∧
        ∀ fault, ¬(o.provenance = .proposed ∧ d.isStuck settings header = true ∧
          Settings.remainderFault? env.round settings.checkModulus = some fault)) ∧
      (∀ rejection, (d.step settings (.offer env o)).1 = .rejected rejection ↔
        d.firstObjection? settings env o = some rejection) ∧
      (d.firstObjection? settings env o = none ↔
        ∃ header hash, o.header = some header ∧ o.hash = some hash ∧
          Admissible settings env d header o.provenance) ∧
      (∀ fault, (d.step settings (.offer env o)).1 = .faulted fault ↔
        ∃ header hash, o.header = some header ∧ o.hash = some hash ∧
          Admissible settings env d header o.provenance ∧ o.provenance = .proposed ∧
          d.isStuck settings header = true ∧
          Settings.remainderFault? env.round settings.checkModulus = some fault) ∧
      ((d.step settings (.offer env o)).1 ≠ .accepted →
        (d.step settings (.offer env o)).2 = d) ∧
      ((d.step settings (.offer env o)).1 = .accepted → ∀ header, o.header = some header →
        header.nonce.toNat < Nat.pow 2 63 ∧ header.round.toNat < Nat.pow 2 63) := by
  have hs := h.sound sound_genesis
  have hnonce : Low d.final.nonce := hs.history.final_low
  have hround : Low d.final.round := h.low_rounds hancestors _ List.mem_cons_self
  -- The gates may be replaced by the conditions, whatever else is asked of the header.
  have hadmissible : ∀ P : Header → Prop,
      (∃ header hash, o.header = some header ∧ o.hash = some hash ∧
        d.gateFault? settings env header o.provenance = none ∧ P header) ↔
      ∃ header hash, o.header = some header ∧ o.hash = some hash ∧
        Admissible settings env d header o.provenance ∧ P header := by
    intro P
    refine exists₂_congr fun header hash => and_congr_right fun hheader =>
      and_congr_right fun hhash => and_congr_left' ?_
    rcases fits_gateDifferences hrange hheader hhash with ⟨hnext, hdistance⟩
    exact (admissible_iff hnext hdistance hnonce hround).symm
  refine ⟨?_, fun r => rejected_iff, ?_, fun fault => ?_, step_of_not_accepted,
    fun haccepted header hheader => ?_⟩
  · rw [accepted_iff, hadmissible]
    simp only [ne_eq, forces_eq_error_iff]
  · have hall := hadmissible fun _ => True
    simp only [and_true] at hall
    rw [firstObjection?_eq_none_iff, hall]
  · rw [faulted_iff, hadmissible]
    simp only [forces_eq_error_iff]
  · rcases step_of_accepted haccepted with ⟨header', _, _, hheader', _, hgate, _⟩
    cases hheader.symm.trans hheader'
    exact ⟨(final_lt_of_gate hnonce hgate).2, (final_round_lt_of_gate hround hgate).2⟩

/-- A chain whose final block is a certified ancestor. -/
def ancestorFinal : List Event :=
  [Sample.offer 1 1 1 .processed [], Sample.offer 4 5 4 .processed [⟨2, 3, Sample.hash 2⟩]]

/-- A proposal on top of it. -/
def nextProposal : Offer :=
  ⟨some (Sample.header 5 11), some (Sample.hash 5), .proposed, []⟩

/-- A header of a high nonce that nobody has signed. -/
def highNonce : Offer :=
  ⟨some (Sample.unsignedHeader 0x8000000000000005 11), some (Sample.hash 6), .received, []⟩

/-- The proposal is admissible and accepted. The other header is turned away for its nonce,
    which comes before the missing signature. -/
theorem admission_of_highNonce :
    ∃ d, Reaches .standard genesis ancestorFinal d ∧
      (∀ event ∈ ancestorFinal, ∀ a ∈ event.ancestors, a.round.toNat < Nat.pow 2 63) ∧
      d.InRange .standard (.offer (Sample.surroundings 10) nextProposal) ∧
      (d.step .standard (.offer (Sample.surroundings 10) nextProposal)).1 = .accepted ∧
      d.InRange .standard (.offer (Sample.surroundings 10) highNonce) ∧
      (d.step .standard (.offer (Sample.surroundings 10) highNonce)).1
        = .rejected (.nonceTooLow 0x8000000000000005 2) ∧
      (d.step .standard (.offer (Sample.surroundings 10) highNonce)).2 = d := by
  have h : Reaches .standard genesis ancestorFinal (genesis.run .standard ancestorFinal) :=
    reaches_iff.mpr ⟨by decide +kernel, rfl⟩
  have hancestors : ∀ event ∈ ancestorFinal, ∀ a ∈ event.ancestors,
      a.round.toNat < Nat.pow 2 63 := by decide +kernel
  have hproposal : (genesis.run .standard ancestorFinal).InRange .standard
      (.offer (Sample.surroundings 10) nextProposal) := by decide +kernel
  have hhigh : (genesis.run .standard ancestorFinal).InRange .standard
      (.offer (Sample.surroundings 10) highNonce) := by decide +kernel
  rcases admission_exact h hancestors hproposal with ⟨haccepted, _⟩
  rcases admission_exact h hancestors hhigh with ⟨_, hrejected, _, _, hunchanged, _⟩
  have hfirst := (hrejected (.nonceTooLow 0x8000000000000005 2)).mpr (by decide +kernel)
  refine ⟨_, h, hancestors, hproposal, haccepted.mpr ?_, hhigh, hfirst,
    hunchanged (hfirst ▸ nofun)⟩
  refine ⟨Sample.header 5 11, Sample.hash 5, rfl, rfl, ?_, fun fault hstuck => ?_⟩
  · exact ⟨by decide +kernel, by decide +kernel, by decide +kernel, by decide +kernel,
      fun _ => rfl, fun _ => rfl, by decide +kernel, by decide +kernel⟩
  · exact absurd hstuck.2.1 (by decide +kernel)

/-- Settings whose modulus is zero. No configuration is read as these. -/
def zeroModulus : Settings :=
  { Settings.standard with checkModulus := 0 }

/-- A proposal that finds the node stuck. -/
def lateProposal : Offer :=
  ⟨some (Sample.header 1 15), some (Sample.hash 1), .proposed, []⟩

/-- Under these settings an admissible header may be neither accepted nor rejected. -/
theorem lateProposal_unanswered :
    Reaches zeroModulus genesis [] genesis ∧
      genesis.InRange zeroModulus (.offer (Sample.surroundings 15) lateProposal) ∧
      Admissible zeroModulus (Sample.surroundings 15) genesis (Sample.header 1 15) .proposed ∧
      (genesis.step zeroModulus (.offer (Sample.surroundings 15) lateProposal)).1 ≠ .accepted ∧
      ∀ rejection, (genesis.step zeroModulus
        (.offer (Sample.surroundings 15) lateProposal)).1 ≠ .rejected rejection := by
  have hfaulted : (genesis.step zeroModulus (.offer (Sample.surroundings 15) lateProposal)).1
      = .faulted .zeroDivisor := by decide +kernel
  refine ⟨.refl _, by decide +kernel, ?_, hfaulted ▸ nofun, fun rejection => hfaulted ▸ nofun⟩
  exact ⟨by decide +kernel, by decide +kernel, by decide +kernel, by decide +kernel,
    fun _ => rfl, fun _ => rfl, by decide +kernel, by decide +kernel⟩

end Detector

end HeaderChain

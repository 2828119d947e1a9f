import HeaderChain.Detector.Run
import HeaderChain.Proofs.HeaderTable.Sound
import HeaderChain.Proofs.History.Commit
import HeaderChain.Proofs.Signed

/-!
# Effects of Operations

What an operation can do to a detector, said once for all that is proved
about runs.

`Detector.step` computes an answer and a state through several layers of
conditions. `Effect` lists the ways in which it can end, each with what is
known when it does, and `effect_step` says that the list is complete. An
invariant is then proved by cases on the effect and never looks at the
conditions again.

Of the effects only one has parts, that of a header which is taken in. Those
are described by what they do to the checkpoints and to the table, which do
not depend on each other: both depend on the final checkpoint as it was
before.

## Main definitions

* `Detector.Effect`: The ways in which an operation can end.
* `Header.checkpoint`: The checkpoint that a header becomes.

## Theorems

* `Detector.effect_step`: An operation ends in one of these ways.
* `Detector.step_of_accepted`, `Detector.step_of_not_accepted`: What is known of
  an accepted header, and of any other.
* `Detector.rejected_cases`, `Detector.roundTooLow_cases`: What is known of a
  rejected one.
* `Detector.history_takeIn`: What a header does to the checkpoints.
* `Detector.table_takeIn`, `Detector.mem_table_takeIn`, `Detector.forall_mem_takeIn`:
  What a header does to the table.
* `Detector.placeFault?_eq_none_iff`: What the gate of place lets pass.
* `Detector.final_lt_of_gate`, `Detector.final_round_lt_of_gate`: What passes
  the gates lies above the final checkpoint and is of a later round.
-/

namespace HeaderChain

/-- The checkpoint that a processed header becomes. -/
def Header.checkpoint (header : Header) (hash : HeaderHash) : Checkpoint :=
  ⟨header.nonce, header.round, some hash⟩

namespace Detector

/-- The ways in which an operation can end, with its answer and the state
    after it. -/
inductive Effect (settings : Settings) (d : Detector) : Event → Answer → Detector → Prop
  /-- A header passes the gates and is taken in. -/
  | accept (env : Surroundings) (o : Offer) (header : Header) (hash : HeaderHash) (force : Bool) :
      o.header = some header → o.hash = some hash →
      d.gateFault? settings env header o.provenance = none →
      d.forces settings env header o.provenance = .ok force →
      Effect settings d (.offer env o) .accepted
        (d.accept settings force header hash o.provenance o.ancestors)
  /-- Nothing changes. -/
  | idle (event : Event) (answer : Answer) : answer ≠ .accepted → Effect settings d event answer d
  /-- A header is rolled back. -/
  | rollBack (nonce : UInt64) (hash : HeaderHash) :
      Effect settings d (.rollBack nonce hash) .done (d.rollBack nonce hash)
  /-- The table is checked for forks. -/
  | scan : d.forced = false →
      Effect settings d .check (.verdict d.table.scan.1) { d with table := d.table.scan.2 }
  /-- The tip is put back. -/
  | retreat (event : Event) : event ≠ .restart → Effect settings d event .done d.retreat
  /-- A declared fork is withdrawn. -/
  | clearForced : Effect settings d .clearForced .done d.clearForced
  /-- Everything is forgotten. -/
  | restart : Effect settings d .restart .done genesis
  /-- The last checkpoint is made final. -/
  | settleAll : Effect settings d .settleAll .done d.settleAll

/-- A header is taken in only if it is there, passes the gates and leaves no
    doubt about the check round. -/
theorem offer_eq_ok {settings : Settings} {env : Surroundings} {d d' : Detector} {o : Offer}
    (h : d.offer settings env o = .ok d') :
    ∃ header hash force, o.header = some header ∧ o.hash = some hash ∧
      d.gateFault? settings env header o.provenance = none ∧
      d.forces settings env header o.provenance = .ok force ∧
      d' = d.accept settings force header hash o.provenance o.ancestors := by
  -- Each condition of an offer either refuses it or is known from there on.
  unfold offer at h
  split at h
  · exact absurd h (by simp only [reduceCtorEq, not_false_eq_true])
  · exact absurd h (by simp only [reduceCtorEq, not_false_eq_true])
  · next header hash hheader hhash =>
    split at h
    · exact absurd h (by simp only [reduceCtorEq, not_false_eq_true])
    · next hgate =>
      split at h
      · exact absurd h (by simp only [reduceCtorEq, not_false_eq_true])
      · next force hforces =>
        exact ⟨header, hash, force, hheader, hhash, hgate, hforces, (Except.ok.inj h).symm⟩

/-- A check looks at the table, unless a fork is declared. -/
theorem step_check_of_unforced (settings : Settings) {d : Detector} (h : d.forced = false) :
    d.step settings .check = (.verdict d.table.scan.1, { d with table := d.table.scan.2 }) := by
  simp only [step, check, h, Bool.false_eq_true, if_false]

/-- An operation ends in one of these ways. -/
theorem effect_step (settings : Settings) (d : Detector) (event : Event) :
    Effect settings d event (d.step settings event).1 (d.step settings event).2 := by
  cases event with
  | offer env o =>
      cases hoffer : d.offer settings env o with
      | error refusal =>
          cases refusal with
          | rejected rejection =>
              simp only [step, hoffer]
              exact .idle _ _ nofun
          | faulted fault =>
              simp only [step, hoffer]
              exact .idle _ _ nofun
      | ok d' =>
          rcases offer_eq_ok hoffer with
            ⟨header, hash, force, hheader, hhash, hgate, hforces, rfl⟩
          simp only [step, hoffer]
          exact .accept env o header hash force hheader hhash hgate hforces
  | rollBack nonce hash => exact .rollBack nonce hash
  | check =>
      -- A declared fork is reported without a look at the table.
      cases hforced : d.forced with
      | true =>
          simp only [step, check, hforced, if_true]
          exact .idle _ _ nofun
      | false =>
          rw [step_check_of_unforced settings hforced]
          exact .scan hforced
  | retreatIfIdle round =>
      -- A chain that is not idle, or not in a check round, keeps its tip.
      by_cases hidle : settings.maxRoundsIdle.toInt < round.toInt - signed d.lastBlockRound
      · cases hround : settings.isCheckRound round with
        | error fault =>
            simp only [step, retreatIfIdle, hidle, hround, if_true, Except.map]
            exact .idle _ _ nofun
        | ok fires =>
            cases fires with
            | true =>
                simp only [step, retreatIfIdle, hidle, hround, if_true, Except.map]
                exact .retreat _ nofun
            | false =>
                simp only [step, retreatIfIdle, hidle, hround, if_true, Except.map]
                exact .idle _ _ nofun
      · simp only [step, retreatIfIdle, hidle, if_false]
        exact .idle _ _ nofun
  | retreat => exact .retreat _ nofun
  | clearForced => exact .clearForced
  | restart => exact .restart
  | settleAll => exact .settleAll

/-- Only a proposal can make the node declare a fork. -/
theorem forces_of_ne_proposed {settings : Settings} {env : Surroundings} {d : Detector}
    {header : Header} {provenance : Provenance} (hp : provenance ≠ .proposed) :
    d.forces settings env header provenance = .ok false :=
  if_neg fun hstuck => hp hstuck.1

theorem forces_processed (settings : Settings) (env : Surroundings) (d : Detector)
    (header : Header) : d.forces settings env header .processed = .ok false :=
  forces_of_ne_proposed nofun

/-- A processed header has to pass the gate of place and to be signed. -/
theorem gateFault?_processed_eq_none_iff {settings : Settings} {env : Surroundings} {d : Detector}
    {header : Header} :
    d.gateFault? settings env header .processed = none ↔
      d.placeFault? env.round header = none ∧ header.isSigned = true := by
  unfold gateFault? originFault? ageFault?
  cases header.isSigned <;>
    simp only [Option.or_eq_none_iff, Bool.not_true, Bool.not_false, Bool.false_eq_true, if_false,
      if_true, reduceCtorEq, and_false, and_true]

/-- If it does, it is taken in, and the node does not declare a fork. -/
theorem step_processed {settings : Settings} {env : Surroundings} {d : Detector} {header : Header}
    (hgate : d.gateFault? settings env header .processed = none) (hash : HeaderHash)
    (ancestors : List Ancestor) :
    d.step settings (.offer env ⟨some header, some hash, .processed, ancestors⟩)
      = (.accepted, d.accept settings false header hash .processed ancestors) := by
  simp only [step, Detector.offer, hgate, forces_processed]

/-- What is known of an accepted header. -/
theorem step_of_accepted {settings : Settings} {env : Surroundings} {d : Detector} {o : Offer}
    (h : (d.step settings (.offer env o)).1 = .accepted) :
    ∃ header hash force, o.header = some header ∧ o.hash = some hash ∧
      d.gateFault? settings env header o.provenance = none ∧
      d.forces settings env header o.provenance = .ok force ∧
      (d.step settings (.offer env o)).2
        = d.accept settings force header hash o.provenance o.ancestors := by
  -- Of the effects of an offer only one answers that it was accepted.
  have heffect := effect_step settings d (.offer env o)
  rw [h] at heffect
  generalize (d.step settings (.offer env o)).2 = d' at heffect
  cases heffect with
  | accept _ _ header hash force hheader hhash hgate hforces =>
      exact ⟨header, hash, force, hheader, hhash, hgate, hforces, rfl⟩
  | idle _ _ hanswer => exact absurd rfl hanswer

/-- Any other header changes nothing. -/
theorem step_of_not_accepted {settings : Settings} {env : Surroundings} {d : Detector} {o : Offer}
    (h : (d.step settings (.offer env o)).1 ≠ .accepted) :
    (d.step settings (.offer env o)).2 = d := by
  cases hoffer : d.offer settings env o with
  | ok d' =>
      simp only [step, hoffer] at h
      exact absurd rfl h
  | error refusal =>
      simp only [step, hoffer]
      cases refusal with
      | rejected rejection => rfl
      | faulted fault => rfl

/-- A header is rejected for want of a hash or by the gates. -/
theorem rejected_cases {settings : Settings} {env : Surroundings} {d : Detector} {o : Offer}
    {header : Header} {rejection : Rejection} (hheader : o.header = some header)
    (h : (d.step settings (.offer env o)).1 = .rejected rejection) :
    (o.hash = none ∧ rejection = .noHash) ∨
      ∃ hash, o.hash = some hash ∧
        d.gateFault? settings env header o.provenance = some rejection := by
  cases hhash : o.hash with
  | none =>
      simp only [step, Detector.offer, hheader, hhash, Answer.rejected.injEq] at h
      exact .inl ⟨rfl, h.symm⟩
  | some hash =>
      right
      simp only [step, Detector.offer, hheader, hhash] at h
      cases hgate : d.gateFault? settings env header o.provenance with
      | some r =>
          simp only [hgate, Answer.rejected.injEq] at h
          exact ⟨hash, rfl, congrArg some h⟩
      | none =>
          -- Past the gates a header is not rejected any more.
          simp only [hgate] at h
          cases hforces : d.forces settings env header o.provenance with
          | error fault => simp only [hforces, reduceCtorEq] at h
          | ok force => simp only [hforces, reduceCtorEq] at h

section TakeIn

variable (settings : Settings) (d : Detector) (force : Bool) (header : Header) (hash : HeaderHash)
  (provenance : Provenance) (ancestors : List Ancestor)

/-- A processed header is committed with the ancestors in the window. Any
    other leaves the checkpoints alone. -/
theorem history_takeIn :
    (d.takeIn settings force header hash provenance ancestors).history
      = if provenance = .processed then
          d.history.commit settings.finalDepth (header.checkpoint hash) (d.window header ancestors)
        else d.history := by
  cases provenance <;> rfl

/-- Afterwards the checkpoints are pruned. -/
theorem history_accept :
    (d.accept settings force header hash provenance ancestors).history
      = (d.takeIn settings force header hash provenance ancestors).history.prune :=
  rfl

/-- A processed header that brings no ancestors is pushed, and the depth rule is
    applied. -/
theorem history_accept_processed :
    (d.accept settings force header hash .processed []).history
      = ((d.history.push (header.checkpoint hash)).settle settings.finalDepth).prune :=
  rfl

/-- It is observed, and then the table is tidied up. -/
theorem table_accept_processed :
    (d.accept settings force header hash .processed []).table
      = ((d.table.observe ⟨header.nonce, header.round, hash, .processed⟩).dropBelow
          (d.accept settings force header hash .processed []).final.nonce).dropPremature
          (d.accept settings force header hash .processed []).final :=
  rfl

/-- Only a processed header sets the round of the last one. -/
theorem lastBlockRound_accept :
    (d.accept settings force header hash provenance ancestors).lastBlockRound
      = if provenance = .processed then header.round else d.lastBlockRound := by
  cases provenance <;> rfl

/-- A header is observed unless it is a proposal. Those in the window of a
    processed one are observed after it. -/
theorem table_takeIn :
    (d.takeIn settings force header hash provenance ancestors).table
      = if provenance = .proposed then d.table
        else (if provenance = .processed then d.window header ancestors else []).foldl noteAncestor
          (d.table.observe ⟨header.nonce, header.round, hash, provenance⟩) := by
  cases provenance <;> rfl

theorem lastProposed_accept :
    (d.accept settings force header hash provenance ancestors).lastProposed
      = if provenance = .proposed then header.nonce else d.lastProposed := by
  cases provenance <;> rfl

theorem forced_accept :
    (d.accept settings force header hash provenance ancestors).forced = (d.forced || force) := by
  cases provenance <;> rfl

end TakeIn

/-- The window of a header holds the ancestors between the final checkpoint and the
    header. -/
theorem mem_window_iff {d : Detector} {header : Header} {ancestors : List Ancestor}
    {a : Ancestor} :
    a ∈ d.window header ancestors ↔
      a ∈ ancestors ∧ d.final.nonce < a.nonce ∧ a.nonce < header.nonce := by
  simp only [window, List.mem_filter, Bool.and_eq_true, decide_eq_true_eq]

theorem mem_window {d : Detector} {header : Header} {ancestors : List Ancestor} {a : Ancestor}
    (h : a ∈ d.window header ancestors) :
    a ∈ ancestors ∧ d.final.nonce < a.nonce ∧ a.nonce < header.nonce :=
  mem_window_iff.mp h

theorem mem_foldl_noteAncestor {ancestors : List Ancestor} {t : HeaderTable} {o : Observation}
    (ho : o ∈ (ancestors.foldl noteAncestor t).observations) :
    o ∈ t.observations ∨ ∃ a ∈ ancestors, o.nonce = a.nonce := by
  induction ancestors generalizing t with
  | nil => exact .inl ho
  | cons a rest ih =>
      rcases ih ho with hold | ⟨b, hb, hnonce⟩
      · rcases HeaderTable.mem_observe hold with hold | ⟨hnonce, _⟩
        · exact .inl hold
        · exact .inr ⟨a, List.mem_cons_self, hnonce⟩
      · exact .inr ⟨b, List.mem_cons_of_mem a hb, hnonce⟩

theorem forall_mem_foldl_noteAncestor {Q : Observation → Prop} (hQ : HeaderTable.Persists Q)
    {ancestors : List Ancestor} {t : HeaderTable} (ht : ∀ o ∈ t.observations, Q o)
    (hancestors : ∀ a ∈ ancestors, Q a.observation) :
    ∀ o ∈ (ancestors.foldl noteAncestor t).observations, Q o := by
  induction ancestors generalizing t with
  | nil => exact ht
  | cons a rest ih =>
      refine ih ?_ fun b hb => hancestors b (List.mem_cons_of_mem a hb)
      exact hQ ht (hancestors a List.mem_cons_self)

/-- What persists holds after a header is taken in, if it holds of the header and, where
    that is processed, of the ancestors in its window. -/
theorem forall_mem_takeIn {Q : Observation → Prop} (hQ : HeaderTable.Persists Q)
    {settings : Settings} {d : Detector} {force : Bool} {header : Header} {hash : HeaderHash}
    {provenance : Provenance} {ancestors : List Ancestor} (hseen : ∀ o ∈ d.table.observations, Q o)
    (hheader : provenance ≠ .proposed → Q ⟨header.nonce, header.round, hash, provenance⟩)
    (hwindow : provenance = .processed → ∀ a ∈ d.window header ancestors, Q a.observation) :
    ∀ o ∈ (d.takeIn settings force header hash provenance ancestors).table.observations, Q o := by
  rw [table_takeIn]
  split
  · exact hseen
  · next hproposed =>
    refine forall_mem_foldl_noteAncestor hQ (hQ hseen (hheader hproposed)) fun a ha => ?_
    split at ha
    · next hprocessed => exact hwindow hprocessed a ha
    · exact absurd ha List.not_mem_nil

/-- Every observation was there before, or lies at the nonce of the header or
    of an ancestor in its window. -/
theorem mem_table_takeIn {settings : Settings} {d : Detector} {force : Bool} {header : Header}
    {hash : HeaderHash} {provenance : Provenance} {ancestors : List Ancestor} {o : Observation}
    (ho : o ∈ (d.takeIn settings force header hash provenance ancestors).table.observations) :
    o ∈ d.table.observations ∨ o.nonce = header.nonce ∨
      ∃ a ∈ d.window header ancestors, o.nonce = a.nonce := by
  rw [table_takeIn] at ho
  split at ho
  · exact .inl ho
  · -- The header is observed first, then the ancestors in its window.
    rcases mem_foldl_noteAncestor ho with hold | ⟨a, ha, hnonce⟩
    · rcases HeaderTable.mem_observe hold with hold | ⟨hnonce, _⟩
      · exact .inl hold
      · exact .inr (.inl hnonce)
    · split at ha
      · exact .inr (.inr ⟨a, ha, hnonce⟩)
      · exact absurd ha List.not_mem_nil

/-- What the gate of place lets pass. -/
theorem placeFault?_eq_none_iff {d : Detector} {round : Int64} {header : Header} :
    d.placeFault? round header = none ↔
      0 < distance header.nonce d.final.nonce ∧
        distance header.nonce d.final.nonce ≤ distance header.round d.final.round ∧
        signed header.round ≤ round.toInt + 1 := by
  grind [placeFault?]

/-- What passes the gates passes the gate of place. -/
theorem placed_of_gate {settings : Settings} {env : Surroundings} {d : Detector}
    {header : Header} {provenance : Provenance}
    (h : d.gateFault? settings env header provenance = none) :
    0 < distance header.nonce d.final.nonce ∧
      distance header.nonce d.final.nonce ≤ distance header.round d.final.round ∧
      signed header.round ≤ env.round.toInt + 1 :=
  placeFault?_eq_none_iff.mp (Option.or_eq_none_iff.mp h).1

/-- A round is too low at the gate of place or, unless the header is processed,
    at the gate of age. -/
theorem roundTooLow_cases {settings : Settings} {env : Surroundings} {d : Detector}
    {header : Header} {provenance : Provenance} {round : UInt64} {limit : Int}
    (h : d.gateFault? settings env header provenance = some (.roundTooLow round limit)) :
    distance header.round d.final.round < 0 ∨
      (provenance ≠ .processed ∧
        signed header.round < env.round.toInt - settings.blockFinality.toInt) := by
  -- Of the other reasons that the gates give, none is about a low round.
  rcases Option.or_eq_some_iff.mp h with hplace | ⟨_, hrest⟩
  · left
    grind [placeFault?]
  · right
    cases provenance <;> grind [originFault?, ageFault?]

/-- What passes the gates lies above a low final checkpoint and is low
    itself. -/
theorem final_lt_of_gate {settings : Settings} {env : Surroundings} {d : Detector}
    {header : Header} {provenance : Provenance} (hlow : Low d.final.nonce)
    (h : d.gateFault? settings env header provenance = none) :
    d.final.nonce < header.nonce ∧ Low header.nonce :=
  ⟨lt_of_distance_pos hlow (placed_of_gate h).1, low_of_distance_pos hlow (placed_of_gate h).1⟩

/-- It is of a later round than a final checkpoint of a low round, and its round
    is low. -/
theorem final_round_lt_of_gate {settings : Settings} {env : Surroundings} {d : Detector}
    {header : Header} {provenance : Provenance} (hlow : Low d.final.round)
    (h : d.gateFault? settings env header provenance = none) :
    d.final.round < header.round ∧ Low header.round := by
  rcases placed_of_gate h with ⟨hnonces, hrounds, _⟩
  have hpos : 0 < distance header.round d.final.round := Int.lt_of_lt_of_le hnonces hrounds
  exact ⟨lt_of_distance_pos hlow hpos, low_of_distance_pos hlow hpos⟩

end Detector

end HeaderChain

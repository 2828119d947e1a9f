import HeaderChain.Proofs.Detector.Sound
import HeaderChain.Proofs.Provenance
import Mathlib.Data.List.Forall2

/-!
# What Moves Finality

Headers that the node has not processed itself have no influence on what is
final.

A run is compared with the one that is left of it when every offer of such a
header is taken out. The two go through different states: what is offered by
others stands in the table, moves the estimate of the tip and can make the
node declare a fork. But they agree on the checkpoints and on the round of
the header processed last, and `Agrees` asks for no more. Nothing that is read
where these two change is left out of it, because the gates and the window of
a processed header look at the final checkpoint and at nothing else.

An operation that is taken out must not change either of the two, although it
tidies up like any other. In a sound detector there is nothing below the final
checkpoint to be dropped, so it does not.

That the shorter run is in range does not come for free, since it goes through
states that the longer one did not see. What is computed about a table is
about its received headers, and in a run without them there are none.

## Main definitions

* `Event.isOwn`: An operation is not an offer of a header that the node has
  not processed.
* `Detector.Agrees`: Two detectors agree on what is final and on what decides
  it.
* `Entry.Agrees`: Two runs agree on an operation.

## Theorems

* `Detector.Effect.agrees_of_not_own`: Offers of other headers change nothing
  of this.
* `Detector.Agrees.step`: Detectors that agree go on to agree.
* `Detector.Agrees.inRange`: What is in range for one is so for the other, if
  that has no received headers.
* `Detector.Agrees.trace`, `Detector.Agrees.reaches`: What is left of a run
  agrees with it, and is in range.
* `Detector.finality_without_others`: Only what is processed, with the
  ancestors that come with it, moves finality.
-/

namespace HeaderChain

/-- Whether an operation is anything but the offer of a header that the node has
    not processed. -/
def Event.isOwn : Event → Bool
  | .offer _ o => o.provenance.isProcessed
  | _ => true

namespace HeaderTable

/-- A table has no received headers. -/
def Unreceived (t : HeaderTable) : Prop :=
  ∀ o ∈ t.observations, o.provenance ≠ .received

theorem Unreceived.keep {t : HeaderTable} (h : t.Unreceived) (test : Observation → Bool) :
    (t.keep test).Unreceived :=
  fun o ho => h o (mem_of_mem_keep ho)

end HeaderTable

namespace Detector

/-- Two detectors have the same checkpoints and have processed their last
    header in the same round. -/
structure Agrees (d d' : Detector) : Prop where
  /-- The checkpoints, the final one among them, are the same. -/
  history : d.history = d'.history
  /-- So is the round of the header processed last. -/
  lastBlockRound : d.lastBlockRound = d'.lastBlockRound

end Detector

/-- An operation is answered the same in two runs, unless it is a check for
    forks, and leaves detectors that agree. -/
structure Entry.Agrees (e e' : Entry) : Prop where
  /-- It is the same operation. -/
  event : e.event = e'.event
  /-- It has the same answer. -/
  answer : e.event ≠ .check → e.answer = e'.answer
  /-- It leaves detectors that agree. -/
  after : e.after.Agrees e'.after

namespace Detector

variable {settings : Settings} {d d' u : Detector} {event : Event} {events : List Event}

namespace Agrees

theorem refl (d : Detector) : d.Agrees d :=
  ⟨rfl, rfl⟩

theorem symm (h : d.Agrees d') : d'.Agrees d :=
  ⟨h.history.symm, h.lastBlockRound.symm⟩

theorem trans (h : d.Agrees d') (h' : d'.Agrees u) : d.Agrees u :=
  ⟨h.history.trans h'.history, h.lastBlockRound.trans h'.lastBlockRound⟩

theorem final_eq (h : d.Agrees d') : d.final = d'.final :=
  congrArg History.final h.history

end Agrees

-- Operations that leave both as they are.

/-- Taking in a header that is not processed leaves a sound detector with the
    checkpoints it had. -/
theorem Sound.accept_agrees (hs : d.Sound) (settings : Settings) (force : Bool) (header : Header)
    (hash : HeaderHash) {provenance : Provenance} (hp : provenance ≠ .processed)
    (ancestors : List Ancestor) :
    (d.accept settings force header hash provenance ancestors).Agrees d where
  history := by
    rw [history_accept, history_takeIn, if_neg hp, hs.history.prune_eq]
  lastBlockRound := by
    rw [lastBlockRound_accept, if_neg hp]

/-- The offer of a header that is not processed leaves a sound detector with
    the checkpoints it had. -/
theorem Effect.agrees_of_not_own {answer : Answer} (h : Effect settings d event answer d')
    (hs : d.Sound) (hown : ¬ event.isOwn = true) : d'.Agrees d := by
  cases h with
  | accept env o header hash force _ _ _ _ =>
      have hp : o.provenance ≠ .processed := fun hp => hown (Provenance.isProcessed_iff.mpr hp)
      exact hs.accept_agrees settings force header hash hp o.ancestors
  | idle _ _ _ => exact .refl d
  | rollBack _ _ => exact absurd rfl hown
  | scan _ => exact absurd rfl hown
  | retreat _ _ => exact ⟨rfl, rfl⟩
  | clearForced => exact absurd rfl hown
  | restart => exact absurd rfl hown
  | settleAll => exact absurd rfl hown

theorem check_agrees (d : Detector) : d.check.2.Agrees d := by
  unfold check
  split
  · exact .refl d
  · exact ⟨rfl, rfl⟩

namespace Agrees

-- Operations that change both.

theorem placeFault?_eq (h : d.Agrees d') (round : Int64) (header : Header) :
    d.placeFault? round header = d'.placeFault? round header := by
  unfold placeFault?
  rw [h.final_eq]

theorem gateFault?_eq (h : d.Agrees d') (settings : Settings) (env : Surroundings)
    (header : Header) (provenance : Provenance) :
    d.gateFault? settings env header provenance
      = d'.gateFault? settings env header provenance := by
  rw [gateFault?, h.placeFault?_eq, ← gateFault?]

theorem gateDifferences_eq (h : d.Agrees d') (settings : Settings) (env : Surroundings)
    (header : Header) (provenance : Provenance) :
    d.gateDifferences settings env header provenance
      = d'.gateDifferences settings env header provenance := by
  unfold gateDifferences
  rw [h.placeFault?_eq, h.final_eq]

theorem window_eq (h : d.Agrees d') (header : Header) (ancestors : List Ancestor) :
    d.window header ancestors = d'.window header ancestors := by
  unfold window
  rw [h.final_eq]

/-- A processed header makes the same checkpoints. -/
theorem accept (h : d.Agrees d') (settings : Settings) (force : Bool) (header : Header)
    (hash : HeaderHash) (ancestors : List Ancestor) :
    (d.accept settings force header hash .processed ancestors).Agrees
      (d'.accept settings force header hash .processed ancestors) where
  history := by
    rw [history_accept, history_takeIn, h.window_eq, h.history, ← history_takeIn,
      ← history_accept]
  lastBlockRound := by
    rw [lastBlockRound_accept, lastBlockRound_accept, if_pos rfl, if_pos rfl]

/-- A processed header is refused by both for the same reason or taken in by
    both. -/
theorem offer (h : d.Agrees d') (settings : Settings) (env : Surroundings) {o : Offer}
    (ho : o.provenance = .processed) :
    (∃ refusal, d.offer settings env o = .error refusal ∧
        d'.offer settings env o = .error refusal) ∨
      ∃ u u', d.offer settings env o = .ok u ∧ d'.offer settings env o = .ok u' ∧
        u.Agrees u' := by
  unfold Detector.offer
  cases o.header with
  | none => exact .inl ⟨_, rfl, rfl⟩
  | some header =>
      cases o.hash with
      | none => exact .inl ⟨_, rfl, rfl⟩
      | some hash =>
          simp only [ho, forces_processed, h.gateFault?_eq]
          cases d'.gateFault? settings env header .processed with
          | some rejection => exact .inl ⟨_, rfl, rfl⟩
          | none => exact .inr ⟨_, _, rfl, rfl, h.accept settings false header hash o.ancestors⟩

/-- Both put the tip back or neither does, and that does not concern the
    checkpoints. -/
theorem retreatIfIdle (h : d.Agrees d') (settings : Settings) (round : Int64) :
    (∃ fault, d.retreatIfIdle settings round = .error fault ∧
        d'.retreatIfIdle settings round = .error fault) ∨
      ∃ u u', d.retreatIfIdle settings round = .ok u ∧
        d'.retreatIfIdle settings round = .ok u' ∧ u.Agrees u' := by
  unfold Detector.retreatIfIdle
  rw [h.lastBlockRound]
  split
  · cases settings.isCheckRound round with
    | error fault => exact .inl ⟨_, rfl, rfl⟩
    | ok fires =>
        cases fires with
        | false => exact .inr ⟨d, d', rfl, rfl, h⟩
        | true => exact .inr ⟨d.retreat, d'.retreat, rfl, rfl, h.history, h.lastBlockRound⟩
  · exact .inr ⟨d, d', rfl, rfl, h⟩

/-- Detectors that agree go on to agree. They give the same answer to everything
    but a check for forks. -/
theorem step (h : d.Agrees d') (settings : Settings) (hown : event.isOwn = true) :
    (d.step settings event).2.Agrees (d'.step settings event).2 ∧
      (event ≠ .check → (d.step settings event).1 = (d'.step settings event).1) := by
  cases event with
  | offer env o =>
      rcases h.offer settings env (Provenance.isProcessed_iff.mp hown) with
        ⟨refusal, hd, hd'⟩ | ⟨u, u', hd, hd', hu⟩
      · simp only [Detector.step, hd, hd']
        cases refusal with
        | rejected rejection => exact ⟨h, fun _ => rfl⟩
        | faulted fault => exact ⟨h, fun _ => rfl⟩
      · simp only [Detector.step, hd, hd', implies_true, and_true]
        exact hu
  | rollBack nonce hash =>
      exact ⟨⟨congrArg (History.forget · nonce) h.history, h.lastBlockRound⟩, fun _ => rfl⟩
  | check =>
      exact ⟨(check_agrees d).trans (h.trans (check_agrees d').symm),
        fun hcheck => absurd rfl hcheck⟩
  | retreatIfIdle round =>
      rcases h.retreatIfIdle settings round with ⟨fault, hd, hd'⟩ | ⟨u, u', hd, hd', hu⟩
      · simp only [Detector.step, hd, hd', implies_true, and_true]
        exact h
      · simp only [Detector.step, hd, hd', implies_true, and_true]
        exact hu
  | retreat => exact ⟨⟨h.history, h.lastBlockRound⟩, fun _ => rfl⟩
  | clearForced => exact ⟨⟨h.history, h.lastBlockRound⟩, fun _ => rfl⟩
  | restart => exact ⟨.refl _, fun _ => rfl⟩
  | settleAll =>
      exact ⟨⟨congrArg (fun history : History => history.settleAll.prune) h.history,
        h.lastBlockRound⟩, fun _ => rfl⟩

/-- What is left of a run without the offers of others agrees with it. -/
theorem trace (h : d.Agrees d') (hs : d.Sound) (settings : Settings) (events : List Event) :
    List.Forall₂ Entry.Agrees ((d.trace settings events).filter (·.event.isOwn))
      (d'.trace settings (events.filter Event.isOwn)) := by
  refine trace_filter (R := fun u u' => u.Agrees u' ∧ u.Sound) Event.isOwn ⟨h, hs⟩ ?_ ?_
  · rintro u u' event _ hown ⟨hu, hs⟩
    have heffect := effect_step settings u event
    exact ⟨(heffect.agrees_of_not_own hs (Bool.not_eq_true _ ▸ hown)).trans hu, heffect.sound hs⟩
  · rintro u u' event _ hown ⟨hu, hs⟩
    rcases hu.step settings hown with ⟨hafter, hanswer⟩
    exact ⟨⟨hafter, (effect_step settings u event).sound hs⟩, rfl, hanswer, hafter⟩

end Agrees

-- The range of what is left of a run.

theorem tidyDifferences_of_unreceived (h : d.table.Unreceived) : d.tidyDifferences = [] := by
  unfold tidyDifferences
  rw [List.filter_eq_nil_iff.mpr fun o ho => ?_, List.flatMap_nil]
  rw [beq_iff_eq]
  exact h o (HeaderTable.mem_of_mem_keep ho)

/-- A processed header and its ancestors are not received headers. -/
theorem unreceived_takeIn (h : d.table.Unreceived) (settings : Settings) (force : Bool)
    (header : Header) (hash : HeaderHash) (ancestors : List Ancestor) :
    (d.takeIn settings force header hash .processed ancestors).table.Unreceived :=
  forall_mem_takeIn (HeaderTable.persists_provenance (· ≠ .received)) h (fun _ => nofun)
    fun _ _ _ => nofun

/-- No operation but the offer of a header that is not processed brings received
    headers into the table. -/
theorem Effect.unreceived {answer : Answer} (h : Effect settings d event answer d')
    (hd : d.table.Unreceived) (hown : event.isOwn = true) : d'.table.Unreceived := by
  cases h with
  | accept env o header hash force _ _ _ _ =>
      rw [Provenance.isProcessed_iff.mp hown]
      exact ((unreceived_takeIn hd settings force header hash o.ancestors).keep _).keep _
  | idle _ _ _ => exact hd
  | rollBack _ _ => exact hd.keep _
  | scan _ => exact hd.keep _
  | retreat _ _ => exact hd
  | clearForced => exact hd
  | restart => exact fun o ho => absurd ho List.not_mem_nil
  | settleAll => exact (hd.keep _).keep _

/-- Without received headers, the numbers computed for a processed header are
    those of the gates. -/
theorem offerDifferences_processed (hd : d.table.Unreceived) (settings : Settings)
    (env : Surroundings) (header : Header) (hash : HeaderHash) (ancestors : List Ancestor) :
    d.offerDifferences settings env ⟨some header, some hash, .processed, ancestors⟩
      = d.gateDifferences settings env header .processed := by
  have htidy : ∀ force,
      (d.takeIn settings force header hash .processed ancestors).tidyDifferences = [] :=
    fun force => tidyDifferences_of_unreceived
      (unreceived_takeIn hd settings force header hash ancestors)
  simp only [offerDifferences]
  cases d.gateFault? settings env header .processed with
  | some rejection => exact List.append_nil _
  | none => simp only [forces_processed, htidy, forceDifferences, reduceCtorEq, if_false,
      List.append_nil]

namespace Agrees

/-- What is in range for one of two detectors that agree is in range for the
    other, if that has no received headers. -/
theorem inRange (h : d.Agrees d') (hd' : d'.table.Unreceived) (hown : event.isOwn = true)
    (hr : d.InRange settings event) : d'.InRange settings event := by
  cases event with
  | offer env o =>
      rcases o with ⟨header, hash, provenance, ancestors⟩
      cases Provenance.isProcessed_iff.mp hown
      cases header with
      | none => exact fun n hn => absurd hn List.not_mem_nil
      | some header =>
          cases hash with
          | none => exact fun n hn => absurd hn List.not_mem_nil
          | some hash =>
              intro n hn
              rw [differences, offerDifferences_processed hd', ← h.gateDifferences_eq] at hn
              exact hr n (List.mem_append_left _ hn)
  | retreatIfIdle round =>
      unfold InRange differences at hr ⊢
      rw [← h.lastBlockRound]
      exact hr
  | settleAll =>
      have hnone : { d' with history := d'.history.settleAll }.tidyDifferences = [] :=
        tidyDifferences_of_unreceived hd'
      intro n hn
      rw [differences, hnone] at hn
      exact absurd hn List.not_mem_nil
  | rollBack _ _ => exact fun n hn => absurd hn List.not_mem_nil
  | check => exact fun n hn => absurd hn List.not_mem_nil
  | retreat => exact fun n hn => absurd hn List.not_mem_nil
  | clearForced => exact fun n hn => absurd hn List.not_mem_nil
  | restart => exact fun n hn => absurd hn List.not_mem_nil

/-- What is left of a run that is in range is in range. -/
theorem reaches (h : d.Agrees d') (hs : d.Sound) (hd' : d'.table.Unreceived)
    (hr : Reaches settings d events u) :
    ∃ u', Reaches settings d' (events.filter Event.isOwn) u' ∧ u.Agrees u' := by
  have hfilter : ∃ u', Reaches settings d' (events.filter Event.isOwn) u' ∧
      u.Agrees u' ∧ u.Sound ∧ u'.table.Unreceived := by
    refine hr.filter (R := fun u u' => u.Agrees u' ∧ u.Sound ∧ u'.table.Unreceived)
      Event.isOwn ⟨h, hs, hd'⟩ ?_ ?_
    · rintro u u' event _ hown ⟨hu, hs, hu'⟩
      have heffect := effect_step settings u event
      exact ⟨(heffect.agrees_of_not_own hs (Bool.not_eq_true _ ▸ hown)).trans hu,
        heffect.sound hs, hu'⟩
    · rintro u u' event _ hown ⟨hu, hs, hu'⟩
      exact ⟨⟨(hu.step settings hown).1, (effect_step settings u event).sound hs,
        (effect_step settings u' event).unreceived hu' hown⟩, hu.inRange hu' hown⟩
  rcases hfilter with ⟨u', hu', hagrees, _⟩
  exact ⟨u', hu', hagrees⟩

end Agrees

/-- Headers that the node has not processed do not move finality. Take from a
    run every offer of such a header. What is left is a run in range, and after
    each of its operations the checkpoints, the final one among them, and the
    round of the header processed last are what they are after the same
    operation of the whole run. Every operation but a check for forks is
    answered the same, so the processed headers are accepted and rejected
    alike. -/
theorem finality_without_others {events : List Event} {d : Detector}
    (h : Reaches settings genesis events d) :
    (∃ d', Reaches settings genesis (events.filter Event.isOwn) d' ∧ d.Agrees d') ∧
      List.Forall₂ Entry.Agrees ((genesis.trace settings events).filter (·.event.isOwn))
        (genesis.trace settings (events.filter Event.isOwn)) :=
  ⟨(Agrees.refl genesis).reaches sound_genesis (fun _ ho => absurd ho List.not_mem_nil) h,
    (Agrees.refl genesis).trace sound_genesis settings events⟩

/-- Two processed headers, the second of which is rolled back and processed anew
    in a later round. -/
def ownBlocks : List Event :=
  [Sample.offer 1 1 1 .processed [], Sample.offer 2 2 2 .processed [],
    .rollBack 2 (Sample.hash 2), Sample.offer 1 9 7 .processed [],
    Sample.offer 2 9 8 .processed [], .settleAll]

/-- The same among headers of every other kind. -/
def ownAndOtherBlocks : List Event :=
  [Sample.offer 1 9 9 .received [], Sample.offer 1 1 1 .processed [],
    Sample.offer 2 2 2 .processed [], Sample.offer 3 9 3 .proposed [],
    Sample.offer 3 9 4 .notarized [], .rollBack 2 (Sample.hash 2),
    Sample.offer 1 9 7 .processed [], Sample.offer 2 9 8 .processed [], .settleAll]

/-- The others move the estimate of the tip, but not what is final. -/
theorem finality_of_ownAndOtherBlocks :
    ∃ d d', Reaches .standard genesis ownAndOtherBlocks d ∧
      Reaches .standard genesis (ownAndOtherBlocks.filter Event.isOwn) d' ∧
      ownAndOtherBlocks.filter Event.isOwn = ownBlocks ∧ d.tip = 3 ∧ d'.tip = 2 ∧
      d'.final = ⟨2, 9, some (Sample.hash 8)⟩ ∧ d.final = d'.final ∧
      (genesis.trace .standard ownBlocks).map (·.answer)
        = [.accepted, .accepted, .done, .rejected (.nonceTooLow 1 1), .accepted, .done] ∧
      List.Forall₂ Entry.Agrees
        ((genesis.trace .standard ownAndOtherBlocks).filter (·.event.isOwn))
        (genesis.trace .standard ownBlocks) := by
  have h : Reaches .standard genesis ownAndOtherBlocks (genesis.run .standard ownAndOtherBlocks) :=
    reaches_iff.mpr ⟨by decide, rfl⟩
  rcases finality_without_others h with ⟨⟨d', hd', hagrees⟩, htrace⟩
  have hown : ownAndOtherBlocks.filter Event.isOwn = ownBlocks := rfl
  have hrun : d' = genesis.run .standard ownBlocks := hd'.eq_run
  refine ⟨_, d', h, hd', hown, by decide, ?_, ?_, hagrees.final_eq, by decide, htrace⟩
  · rw [hrun]
    decide
  · rw [hrun]
    decide

end Detector

end HeaderChain

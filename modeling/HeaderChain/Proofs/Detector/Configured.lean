import HeaderChain.Proofs.Configuration
import HeaderChain.Proofs.Detector.Admission

/-!
# Configured Detectors

Detectors whose settings come from a configuration, and why none of their operations goes
without an answer.

Two operations ask whether periodic checks may fire, and both pass on what they are told
if there is no telling. Nothing else fails in this way, so whatever goes without an answer
in a run does so for a round that has no remainder by the modulus. There is no such round
if the modulus is positive, and the settings of a configuration have no other.

## Theorems

* `Detector.remainderFault?_of_faulted`: What a missing answer says about the modulus.
* `Detector.answered_of_modulus_pos`: With a positive modulus every operation of a run is
  answered.
* `Detector.configured_answers`: So is every operation of a detector that was configured.
-/

namespace HeaderChain

namespace Detector

variable {settings : Settings} {d : Detector} {event : Event} {events : List Event}
  {fault : RemainderFault}

/-- There is no telling whether to retreat if the node has been idle and the remainder that
    is asked for does not exist. -/
theorem retreatIfIdle_eq_error_iff {round : Int64} :
    d.retreatIfIdle settings round = .error fault ↔
      settings.maxRoundsIdle.toInt < round.toInt - HeaderChain.signed d.lastBlockRound ∧
        Settings.remainderFault? round settings.checkModulus = some fault := by
  rw [← Settings.isCheckRound_eq_error_iff]
  unfold Detector.retreatIfIdle
  by_cases hidle : settings.maxRoundsIdle.toInt < round.toInt - HeaderChain.signed d.lastBlockRound
  · rw [if_pos hidle, and_iff_right hidle]
    cases settings.isCheckRound round with
    | error f => exact ⟨fun h => by cases h; rfl, fun h => by cases h; rfl⟩
    | ok fires => exact ⟨nofun, nofun⟩
  · rw [if_neg hidle]
    exact ⟨nofun, fun h => absurd h.1 hidle⟩

/-- An operation goes without an answer only for a round that has no remainder. -/
theorem remainderFault?_of_faulted (h : (d.step settings event).1 = .faulted fault) :
    ∃ round, Settings.remainderFault? round settings.checkModulus = some fault := by
  -- Only an offer and a retreat ask for a check round. The others have another answer.
  cases event with
  | offer env o =>
      rcases faulted_iff.mp h with ⟨_, _, _, _, _, hforces⟩
      exact ⟨env.round, (forces_eq_error_iff.mp hforces).2.2⟩
  | retreatIfIdle round =>
      refine ⟨round, (retreatIfIdle_eq_error_iff (d := d).mp ?_).2⟩
      simp only [step] at h
      split at h
      · cases h
      · next hretreat =>
        cases h
        exact hretreat
  | rollBack nonce hash => cases h
  | check => cases h
  | retreat => cases h
  | clearForced => cases h
  | restart => cases h
  | settleAll => cases h

/-- With a positive modulus every operation of a run is answered. -/
theorem answered_of_modulus_pos (hmodulus : 0 < settings.checkModulus) {entry : Entry}
    (h : entry ∈ d.trace settings events) : entry.answer ≠ .faulted fault := by
  intro hfaulted
  rcases exists_visits_of_mem_trace h with ⟨u, _, hentry⟩
  rw [hentry] at hfaulted
  rcases remainderFault?_of_faulted hfaulted with ⟨round, hround⟩
  exact nomatch (Settings.remainderFault?_of_pos hmodulus round).symm.trans hround

/-- A configuration is refused exactly if the modulus that it gives is not positive or the
    depth is negative, where a setting that it has nothing for, or nothing that stands for an
    integer, has its default. The settings of any other are the values that it gives, with
    the depth as a number. They tell of every round whether it is a check round, which is
    that the modulus divides it, and so no operation of a detector with these settings goes
    without an answer, whatever state it starts in and whatever is done to it. -/
theorem configured_answers (config : Configuration) :
    ((∃ fault, Settings.ofConfiguration config = .error fault) ↔
      (∃ modulus, config.Gives "round-modulus-trigger" 5 modulus ∧ modulus ≤ 0) ∨
        ∃ depth, config.Gives "final-checkpoint-depth" 1 depth ∧ depth < 0) ∧
    (∀ settings, Settings.ofConfiguration config = .ok settings ↔
      settings.Carries config ∧ 0 < settings.checkModulus) ∧
    ∀ settings, Settings.ofConfiguration config = .ok settings →
      (∀ round, settings.isCheckRound round
        = .ok (decide (settings.checkModulus.toInt ∣ round.toInt))) ∧
      ∀ (d : Detector) (events : List Event), ∀ entry ∈ d.trace settings events,
        ∀ fault, entry.answer ≠ .faulted fault := by
  refine ⟨Settings.ofConfiguration_refuses_iff, fun settings => Settings.ofConfiguration_eq_ok_iff,
    fun settings hsettings => ?_⟩
  have hmodulus := (Settings.ofConfiguration_eq_ok_iff.mp hsettings).2
  exact ⟨Settings.isCheckRound_of_pos hmodulus,
    fun d events entry hentry fault => answered_of_modulus_pos hmodulus hentry⟩

/-- A configuration of values of many kinds. Two of them stand for no integer. -/
def mixedConfiguration : Configuration :=
  [("round-modulus-trigger", .text "+3"), ("final-checkpoint-depth", .real 1.5),
    ("block-finality", .flag true), ("max-rounds-without-received-block", .text "ON"),
    ("max-rounds-without-committed-block", .whole 9223372036854775808),
    ("nonce-difference-when-synced", .text "-0x1")]

/-- What it is read as. -/
def mixedSettings : Settings :=
  { blockFinality := 1
    finalDepth := 2
    maxRoundsIdle := 1
    maxRoundsUncommitted := 10
    syncedLead := 0
    checkModulus := 3 }

/-- A run that looks at the modulus twice. -/
def checkedRun : List Event :=
  [.offer (Sample.surroundings 15)
    ⟨some (Sample.header 1 15), some (Sample.hash 1), .proposed, []⟩, .check, .retreatIfIdle 18]

/-- The settings are read, the least round is told from a multiple and every operation of the
    run is answered. The proposal makes the node declare a fork, so the modulus was looked
    at. -/
theorem answers_of_mixedConfiguration :
    Settings.ofConfiguration mixedConfiguration = .ok mixedSettings ∧
      mixedSettings.isCheckRound Int64.minValue = .ok false ∧
      mixedSettings.isCheckRound (-6) = .ok true ∧
      (genesis.trace mixedSettings checkedRun).map (·.answer) = [.accepted, .verdict .forced, .done] ∧
      ∀ entry ∈ genesis.trace mixedSettings checkedRun, ∀ fault,
        entry.answer ≠ .faulted fault := by
  have hsettings : Settings.ofConfiguration mixedConfiguration = .ok mixedSettings := by
    decide +kernel
  rcases (configured_answers mixedConfiguration).2.2 _ hsettings with ⟨hcheck, hanswers⟩
  refine ⟨hsettings, (hcheck _).trans ?_, (hcheck _).trans ?_, ?_, hanswers genesis checkedRun⟩
  · decide +kernel
  · decide +kernel
  · decide +kernel

end Detector

end HeaderChain

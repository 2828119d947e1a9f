import HeaderChain.Proofs.Detector.Effect
import HeaderChain.Proofs.Detector.Run
import HeaderChain.Proofs.Settings
import HeaderChain.Sample

/-!
# Declared Forks

When a node has declared a fork.

A node that could propose the next block but has not committed one for too long
declares a fork to get unstuck. From then on every check for forks reports it,
whatever the table holds, until it is withdrawn or everything is forgotten. So
the flag says something about the past of a node, and what it says is not visible
in any one operation: all that the declaration depends on, the tip, the last
checkpoint and the round, has usually moved on by the time the flag is read.

`declared_iff_since` says what the flag stands for. It is up exactly if since the
last operation that withdraws it there was a proposal which passed the gates and
found the node `Overdue` at that moment. Both directions matter. That the flag
goes up with every such proposal keeps a node from staying stuck, and that it
goes up with nothing else keeps its peers from making it resynchronise.

Whether a round is a check round can fail to have an answer, but not with a
positive modulus, which is what a configuration is refused without.

## Main definitions

* `Detector.Overdue`: A header finds a node ready to propose, without a commit for
  too long, in a check round.
* `Detector.Declares`: An operation makes the node declare a fork.
* `Event.withdraws`: An operation withdraws a declared fork.

## Theorems

* `Detector.forces_of_pos`: What makes a header declare a fork.
* `Detector.forced_step_iff`: What one operation does to a declared fork.
* `Detector.declared_iff_since`: When a fork is declared in the course of a run.
-/

namespace HeaderChain

/-- Whether an operation withdraws a declared fork. -/
def Event.withdraws : Event → Bool
  | .clearForced => true
  | .restart => true
  | _ => false

namespace Detector

/-- A header finds the node ready to propose the next block, without a commit for
    too long, and this is a check round. -/
structure Overdue (settings : Settings) (d : Detector) (round : Int64) (header : Header) :
    Prop where
  /-- The tip does not lead the last checkpoint by more than it may. -/
  synced : distance d.tip d.last.nonce ≤ settings.syncedLead.toInt
  /-- More rounds have passed since the last checkpoint than may. -/
  late : settings.maxRoundsUncommitted.toInt < distance header.round d.last.round
  /-- The header does not lie beyond the next nonce. -/
  next : distance header.nonce d.last.nonce ≤ 1
  /-- The round is a multiple of the modulus. -/
  checkRound : settings.checkModulus.toInt ∣ round.toInt

/-- An operation makes the node declare a fork: the offer of a proposal that is
    accepted and finds the node overdue. -/
def Declares (settings : Settings) (d : Detector) : Event → Prop
  | .offer env o => o.provenance = .proposed ∧ (d.step settings (.offer env o)).1 = .accepted ∧
      ∃ header, o.header = some header ∧ d.Overdue settings env.round header
  | _ => False

variable {settings : Settings} {d d' : Detector} {event : Event} {events : List Event}

theorem overdue_iff {round : Int64} {header : Header} :
    d.Overdue settings round header ↔
      d.isStuck settings header = true ∧ settings.checkModulus.toInt ∣ round.toInt := by
  simp only [isStuck, isSyncing, Bool.and_eq_true, Bool.not_eq_true', decide_eq_true_eq,
    decide_eq_false_iff_not, Int.not_lt]
  constructor
  · exact fun h => ⟨⟨⟨h.synced, h.late⟩, h.next⟩, h.checkRound⟩
  · rintro ⟨⟨⟨hsynced, hlate⟩, hnext⟩, hround⟩
    exact ⟨hsynced, hlate, hnext, hround⟩

/-- With a positive modulus there is always an answer, and it is that a proposal
    which finds the node overdue makes it declare a fork. -/
theorem forces_of_pos (hmodulus : 0 < settings.checkModulus) (env : Surroundings)
    (header : Header) (provenance : Provenance) :
    ∃ force, d.forces settings env header provenance = .ok force ∧
      (force = true ↔ provenance = .proposed ∧ d.Overdue settings env.round header) := by
  rw [overdue_iff]
  by_cases hstuck : provenance = .proposed ∧ d.isStuck settings header = true
  · refine ⟨decide (settings.checkModulus.toInt ∣ env.round.toInt), ?_, ?_⟩
    · rw [forces, if_pos hstuck, Settings.isCheckRound_of_pos hmodulus]
    · rw [decide_eq_true_eq]
      exact ⟨fun hround => ⟨hstuck.1, hstuck.2, hround⟩, fun h => h.2.2⟩
  · -- Then the round is not looked at.
    refine ⟨false, if_neg hstuck, fun h => absurd h Bool.false_ne_true, fun h => ?_⟩
    exact absurd ⟨h.1, h.2.1⟩ hstuck

/-- An offer lets a declared fork stand, and declares one if it is that of a
    proposal which finds the node overdue. -/
theorem forced_offer_iff (hmodulus : 0 < settings.checkModulus) (env : Surroundings) (o : Offer) :
    (d.step settings (.offer env o)).2.forced = true ↔
      Declares settings d (.offer env o) ∨ d.forced = true := by
  unfold Declares
  by_cases haccepted : (d.step settings (.offer env o)).1 = .accepted
  · rcases step_of_accepted haccepted with ⟨header, hash, force, hheader, _, _, hforces, hstep⟩
    rcases forces_of_pos (d := d) hmodulus env header o.provenance with
      ⟨force', hforces', hdeclares⟩
    have hforce : force = force' := Except.ok.inj (hforces.symm.trans hforces')
    rw [hstep, forced_accept, hforce, Bool.or_eq_true, hdeclares, or_comm]
    refine or_congr_left ⟨fun h => ⟨h.1, haccepted, header, hheader, h.2⟩, ?_⟩
    rintro ⟨hproposed, _, header', hheader', hoverdue⟩
    rw [hheader, Option.some.injEq] at hheader'
    exact ⟨hproposed, hheader' ▸ hoverdue⟩
  · -- A header that is turned away changes nothing and declares nothing.
    rw [step_of_not_accepted haccepted]
    exact ⟨.inr, fun h => h.resolve_left fun hdeclares => haccepted hdeclares.2.1⟩

/-- Apart from offers, a declared fork stands unless it is withdrawn. -/
theorem Effect.forced_eq {answer : Answer} (h : Effect settings d event answer d')
    (hoffer : ∀ env o, event ≠ .offer env o) (hkept : event.withdraws = false) :
    d'.forced = d.forced := by
  cases h with
  | accept env o _ _ _ _ _ _ _ => exact absurd rfl (hoffer env o)
  | idle _ _ _ => rfl
  | rollBack _ _ => rfl
  | scan _ => rfl
  | retreat _ _ => rfl
  | clearForced => exact absurd hkept.symm Bool.false_ne_true
  | restart => exact absurd hkept.symm Bool.false_ne_true
  | settleAll => rfl

/-- After an operation a fork is declared if the operation declares it, or if one was
    declared before and the operation does not withdraw it. -/
theorem forced_step_iff (hmodulus : 0 < settings.checkModulus) :
    (d.step settings event).2.forced = true ↔
      Declares settings d event ∨ (d.forced = true ∧ ¬ event.withdraws = true) := by
  cases event with
  | offer env o =>
      -- No offer withdraws a fork.
      rw [forced_offer_iff hmodulus env o]
      exact or_congr_right ⟨fun h => ⟨h, Bool.false_ne_true⟩, fun h => h.1⟩
  | clearForced | restart =>
      exact ⟨fun h => absurd h Bool.false_ne_true, fun h => absurd rfl (h.resolve_left id).2⟩
  | rollBack _ _ | check | retreatIfIdle _ | retreat | settleAll =>
      rw [(effect_step settings d _).forced_eq (fun _ _ h => Event.noConfusion h) rfl]
      exact ⟨fun h => .inr ⟨h, Bool.false_ne_true⟩, fun h => (h.resolve_left id).1⟩

/-- What a declared fork stands for. Take any run with a positive modulus. In the end
    a fork is declared exactly if, since the last operation that withdrew one or
    started over, a proposal was accepted that found the node overdue: the tip no
    further ahead of the last checkpoint than it may, the proposal later by more
    rounds than may pass without a commit and not beyond the next nonce, and the
    round a multiple of the modulus, all of it judged by the state that the proposal
    found. And in any state that is reached, no offer of a header which is not a
    proposal, or which is turned away, changes what is declared. -/
theorem declared_iff_since (h : Reaches settings genesis events d)
    (hmodulus : 0 < settings.checkModulus) :
    (d.forced = true ↔
        Since settings genesis (·.withdraws = true) (Declares settings) events) ∧
      ∀ env o, (o.provenance ≠ .proposed ∨ (d.step settings (.offer env o)).1 ≠ .accepted) →
        (d.step settings (.offer env o)).2.forced = d.forced := by
  constructor
  · -- From one operation to the next both sides change in the same way.
    refine h.tracked (P := fun events u => u.forced = true ↔
      Since settings genesis (·.withdraws = true) (Declares settings) events) ?_ ?_
    · exact ⟨fun h => absurd h Bool.false_ne_true, fun h => absurd h not_since_nil⟩
    · intro before u event hu ih
      rw [forced_step_iff hmodulus, since_concat, ← hu.eq_run, ih]
  · intro env o hidle
    rw [Bool.eq_iff_iff, forced_offer_iff hmodulus env o]
    refine ⟨fun h => h.resolve_left fun hdeclares => ?_, .inr⟩
    rcases hidle with hother | hrejected
    · exact hother hdeclares.1
    · exact hrejected hdeclares.2.1

/-- Of two proposals the second comes too late, and the fork that it makes the node
    declare is withdrawn. -/
def withdrawnFork : List Event :=
  [Sample.offer 1 9 1 .proposed [], Sample.offer 1 11 2 .proposed [], .clearForced]

/-- The same proposal makes it declare a fork again, and a processed header does not
    change that. -/
def repeatedFork : List Event :=
  withdrawnFork ++ [Sample.offer 1 11 2 .proposed [], Sample.offer 1 5 3 .processed [], .check]

/-- In between no fork is declared, and in the end one is. -/
theorem declared_in_repeatedFork :
    ∃ s t, Reaches .standard genesis withdrawnFork s ∧ Reaches .standard genesis repeatedFork t ∧
      0 < Settings.standard.checkModulus ∧
      s.forced = false ∧
      ¬ Since .standard genesis (·.withdraws = true) (Declares .standard) withdrawnFork ∧
      t.forced = true ∧
      Since .standard genesis (·.withdraws = true) (Declares .standard) repeatedFork ∧
      t.last = ⟨1, 5, some (Sample.hash 3)⟩ ∧ (t.step .standard .check).1 = .verdict .forced := by
  have hs : Reaches .standard genesis withdrawnFork (genesis.run .standard withdrawnFork) :=
    reaches_iff.mpr ⟨by decide, rfl⟩
  have ht : Reaches .standard genesis repeatedFork (genesis.run .standard repeatedFork) :=
    reaches_iff.mpr ⟨by decide, rfl⟩
  have hmodulus : 0 < Settings.standard.checkModulus := by decide
  have hwithdrawn : (genesis.run .standard withdrawnFork).forced = false := by decide
  have hdeclared : (genesis.run .standard repeatedFork).forced = true := by decide
  refine ⟨_, _, hs, ht, hmodulus, hwithdrawn, fun hsince => ?_, hdeclared,
    (declared_iff_since ht hmodulus).1.mp hdeclared, by decide, by decide⟩
  rw [(declared_iff_since hs hmodulus).1.mpr hsince] at hwithdrawn
  exact Bool.false_ne_true hwithdrawn.symm

end Detector

end HeaderChain

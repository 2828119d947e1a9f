import HeaderChain.Proofs.Detector.Backing

/-!
# Unwinding a Chain

Rolling back the tip again and again ends at the final checkpoint.

A node that has lost its way takes its chain apart from the top. It looks up the last
checkpoint, rolls back the header of that nonce and hash, and goes on as long as the
last checkpoint lies above the final one. Each turn takes the highest entry from the
history and none is added, so there are no more turns than entries. That holds of any
detector at all. The rest does not: the loop is stuck where a checkpoint has no hash,
as that of the first block has none, it could pass below the final checkpoint, or end
at another of the same nonce, and a header of the own chain could stay behind in the
table because its checkpoint is of another hash.

In a reachable state three invariants rule this out. A checkpoint above the final one
is that of a processed header in the table, so it has a hash, and it is the hash of
the only processed header there. The entries do not lie below the final checkpoint,
and the one at its nonce is the final one itself. The history alone decides how long
the loop runs, but what it leaves behind is a matter of how history and table agree.

## Main definitions

* `Detector.unwinding?`: The operations of a node that takes its chain apart.
* `Detector.Unwound`: What they leave of it.

## Theorems

* `Detector.unowned_rollBack`: What rolling back leaves of a nonce.
* `Detector.Unwound.cons`: What is unwound after one turn was so before it.
* `Detector.Backed.unwinds`: The loop ends, and takes the chain apart.
* `Detector.unwinding_ends_at_final`: Every reachable chain is unwound.
-/

namespace HeaderChain

/-- Rolling back the nonce of an entry leaves fewer of them. -/
theorem History.length_forget_lt {h : History} {c : Checkpoint} (hc : c ∈ h.checkpoints) :
    (h.forget c.nonce).checkpoints.length < h.checkpoints.length := by
  refine List.length_filter_lt_length_iff_exists.mpr ⟨c, hc, ?_⟩
  simp only [bne_self_eq_false, Bool.false_eq_true, not_false_eq_true]

namespace Detector

variable {settings : Settings} {d d' : Detector} {events : List Event} {hash : HeaderHash}

/-- The operations of a node that rolls back the last checkpoint as long as it lies
    above the final one. There are none if it comes to a checkpoint without a hash. -/
def unwinding? (d : Detector) : Option (List Event) :=
  if d.final.nonce < d.last.nonce then
    match d.last.hash with
    | none => none
    | some hash =>
      (unwinding? (d.rollBack d.last.nonce hash)).map (.rollBack d.last.nonce hash :: ·)
  else some []
termination_by d.history.checkpoints.length
decreasing_by exact History.length_forget_lt (History.last_mem_of_final_lt ‹_›)

theorem unwinding?_of_lt (hlt : d.final.nonce < d.last.nonce) (hhash : d.last.hash = some hash) :
    d.unwinding?
      = (d.rollBack d.last.nonce hash).unwinding?.map (.rollBack d.last.nonce hash :: ·) := by
  rw [unwinding?, if_pos hlt, hhash]

theorem unwinding?_of_not_lt (hnot : ¬ d.final.nonce < d.last.nonce) : d.unwinding? = some [] := by
  rw [unwinding?, if_neg hnot]

/-- What a sequence of operations that takes the chain apart leaves of it. -/
structure Unwound (settings : Settings) (d : Detector) (events : List Event) (d' : Detector) :
    Prop where
  /-- There are no more operations than the history has entries. -/
  bounded : events.length ≤ d.history.checkpoints.length
  /-- None of them changes the final checkpoint. -/
  final_eq : ∀ entry ∈ d.trace settings events, entry.after.final = d.final
  /-- In the end the last checkpoint is the final one. -/
  last_eq : d'.last = d'.final ∧ d'.final = d.final
  /-- Nothing is added to the table. -/
  shrinks : ∀ nonce, d'.table.row nonce ⊆ d.table.row nonce
  /-- Of a nonce that was rolled back nothing is left that is processed or received. -/
  unowned : ∀ nonce hash, .rollBack nonce hash ∈ events → ∀ o ∈ d'.table.row nonce,
    o.provenance ≠ .processed ∧ o.provenance ≠ .received

/-- Where nothing lies above the final checkpoint, there is nothing to do. -/
theorem Sound.unwound_nil (hs : d.Sound) (hnot : ¬ d.final.nonce < d.last.nonce) :
    Unwound settings d [] d where
  bounded := Nat.zero_le _
  final_eq _ hentry := absurd hentry List.not_mem_nil
  last_eq :=
    ⟨hs.history.last_eq_final
      (UInt64.le_antisymm (UInt64.not_lt.mp hnot) hs.history.final_le_last), rfl⟩
  shrinks _ := List.Subset.refl _
  unowned _ _ hmem := absurd hmem List.not_mem_nil

/-- With the processed header of a nonce goes everything that was received of it. -/
theorem unowned_rollBack {nonce : UInt64} {o p : Observation} (ht : d.table.Consistent)
    (ho : o ∈ d.table.row nonce) (hprocessed : o.provenance = .processed)
    (hp : p ∈ (d.rollBack nonce o.hash).table.row nonce) :
    p.provenance ≠ .processed ∧ p.provenance ≠ .received := by
  rcases HeaderTable.mem_row_retract.mp hp with ⟨hrow, hhash, hunreceived⟩
  refine ⟨fun hpprocessed => ?_, hunreceived⟩
  -- A processed header could only be the one that was rolled back.
  exact hhash (congrArg Observation.hash (ht.eq_of_processed hrow ho hpprocessed hprocessed))

/-- If what a turn leads to is unwound, so is what it starts from. -/
theorem Unwound.cons (hs : d.Sound) (hb : d.Backed) (hlt : d.final.nonce < d.last.nonce)
    (hhash : d.last.hash = some hash)
    (h : Unwound settings (d.rollBack d.last.nonce hash) events d') :
    Unwound settings d (.rollBack d.last.nonce hash :: events) d' where
  bounded :=
    Nat.lt_of_le_of_lt h.bounded (History.length_forget_lt (History.last_mem_of_final_lt hlt))
  final_eq := by
    -- Rolling back drops an entry of the history, but what is final stays so.
    intro entry hentry
    rw [trace_cons] at hentry
    rcases List.mem_cons.mp hentry with rfl | hlater
    · rfl
    · exact h.final_eq entry hlater
  last_eq := h.last_eq
  shrinks nonce o ho := by
    rcases HeaderTable.mem_row.mp (h.shrinks nonce ho) with ⟨hkept, hnonce⟩
    exact HeaderTable.mem_row.mpr ⟨HeaderTable.mem_of_mem_keep hkept, hnonce⟩
  unowned := by
    intro nonce rolled hmem o ho
    rcases List.mem_cons.mp hmem with hfirst | hlater
    · rcases hb.last_processed hlt with ⟨p, hp, hprocessed, hbacks⟩
      have heq : p.hash = hash := Option.some.inj (hbacks.symm.trans hhash)
      -- What is left now was left by this turn.
      rw [(Event.rollBack.inj hfirst).1] at ho
      have hleft := h.shrinks _ ho
      rw [← heq] at hleft
      exact unowned_rollBack hs.table.toConsistent hp hprocessed hleft
    · exact h.unowned nonce rolled hlater o ho

/-- A sound chain whose checkpoints are backed is unwound. -/
theorem Backed.unwinds (hb : d.Backed) (hs : d.Sound) :
    ∃ events d', d.unwinding? = some events ∧ Reaches settings d events d' ∧
      Unwound settings d events d' := by
  -- The induction follows the loop, and both invariants survive a turn.
  induction d using unwinding?.induct with
  | case1 d hlt hnone =>
      rcases hb.last_processed hlt with ⟨o, _, _, hhash⟩
      exact absurd (hnone.symm.trans hhash) (by simp only [reduceCtorEq, not_false_eq_true])
  | case2 d hlt hash hhash ih =>
      rcases ih (hb.rollBack _ hash) (hs.rollBack _ hash) with
        ⟨events, d', hsome, hreaches, hunwound⟩
      refine ⟨.rollBack d.last.nonce hash :: events, d', ?_, .step d _ events d' ?_ hreaches,
        hunwound.cons hs hb hlt hhash⟩
      · rw [unwinding?_of_lt hlt hhash, hsome, Option.map_some]
      · -- Rolling back computes no differences.
        exact fun _ hn => absurd hn List.not_mem_nil
  | case3 d hnot => exact ⟨[], d, unwinding?_of_not_lt hnot, .refl d, hs.unwound_nil hnot⟩

/-- Every reachable chain is unwound. To roll back the last checkpoint, by its nonce
    and hash, as long as it lies above the final one always finds a hash, takes no more
    turns than the history has entries and never changes the final checkpoint. In the
    end the last checkpoint is the final one, and of the nonces that were rolled back
    nothing is left that is processed or received. -/
theorem unwinding_ends_at_final (h : Reaches settings genesis events d) :
    ∃ turns d', d.unwinding? = some turns ∧ Reaches settings d turns d' ∧
      turns.length ≤ d.history.checkpoints.length ∧
      (∀ entry ∈ d.trace settings turns, entry.after.final = d.final) ∧
      d'.last = d'.final ∧ d'.final = d.final ∧
      ∀ nonce hash, .rollBack nonce hash ∈ turns → ∀ o ∈ d'.table.row nonce,
        o.provenance ≠ .processed ∧ o.provenance ≠ .received := by
  have hb : d.Backed := h.backed sound_genesis backed_genesis
  rcases hb.unwinds (h.sound sound_genesis) with ⟨turns, d', hsome, hreaches, hunwound⟩
  exact ⟨turns, d', hsome, hreaches, hunwound.bounded, hunwound.final_eq, hunwound.last_eq.1,
    hunwound.last_eq.2, hunwound.unowned⟩

/-- A chain of three with competitors of the second block. On top of the third comes an
    ancestor that a parent chain has certified in place of the first. -/
def displacedFirst : List Event :=
  [Sample.offer 1 1 1 .processed [], Sample.offer 2 2 2 .processed [],
    Sample.offer 2 9 8 .received [], Sample.offer 2 9 9 .notarized [],
    Sample.offer 3 3 3 .processed [⟨1, 4, Sample.hash 20⟩]]

/-- It is unwound down to that ancestor. Of the second block the competitor is left that
    a parent chain has certified, and of the third nothing. -/
theorem unwinding_of_displacedFirst :
    ∃ d turns d', Reaches lagThree genesis displacedFirst d ∧
      turns = [.rollBack 3 (Sample.hash 3), .rollBack 2 (Sample.hash 2)] ∧
      d.unwinding? = some turns ∧ Reaches lagThree d turns d' ∧
      turns.length ≤ d.history.checkpoints.length ∧
      d'.last = ⟨1, 4, some (Sample.hash 20)⟩ ∧ d'.last = d'.final ∧ d'.final = d.final ∧
      (∀ o ∈ d'.table.row 2, o.provenance ≠ .processed ∧ o.provenance ≠ .received) ∧
      d'.table.row 2 = [⟨2, 9, Sample.hash 9, .notarized⟩] ∧ d'.table.row 3 = [] := by
  have h : Reaches lagThree genesis displacedFirst (genesis.run lagThree displacedFirst) :=
    reaches_iff.mpr ⟨by decide, rfl⟩
  -- The loop is followed turn by turn to see which headers it rolls back.
  have hthird : (genesis.run lagThree displacedFirst).last = ⟨3, 3, some (Sample.hash 3)⟩ := by
    decide
  have hsecond : ((genesis.run lagThree displacedFirst).rollBack 3 (Sample.hash 3)).last
      = ⟨2, 2, some (Sample.hash 2)⟩ := by
    decide
  have hturns : (genesis.run lagThree displacedFirst).unwinding?
      = some [.rollBack 3 (Sample.hash 3), .rollBack 2 (Sample.hash 2)] := by
    rw [unwinding?_of_lt (by decide) (congrArg Checkpoint.hash hthird), hthird,
      unwinding?_of_lt (by decide) (congrArg Checkpoint.hash hsecond), hsecond,
      unwinding?_of_not_lt (by decide)]
    rfl
  rcases unwinding_ends_at_final h with
    ⟨turns, d', hsome, hreaches, hbounded, _, hlast, hfinal, hunowned⟩
  have heq := Option.some.inj (hsome.symm.trans hturns)
  subst heq
  have hrun := hreaches.eq_run
  subst hrun
  exact ⟨_, _, _, h, rfl, hsome, hreaches, hbounded, by decide, hlast, hfinal,
    hunowned 2 (Sample.hash 2) (List.mem_cons_of_mem _ List.mem_cons_self), by decide, by decide⟩

end Detector

end HeaderChain

import HeaderChain.Proofs.Detector.Sound

/-!
# Finality Is Irrevocable

What a final checkpoint rules out for the rest of a run.

Finality moves in three ways: by the depth rule, by a certified ancestor and
by declaring the last checkpoint final. All of them go through
`History.raise`, so none moves it down or sideways, and rolling back a header
drops the entry of the history but not the final checkpoint itself. Only
starting over undoes finality.

The other half is that nothing new appears at the final nonce or below. What
an operation adds is either the header that passed the gates or one of the
ancestors in its window. Both lie above the final checkpoint of that moment,
and since finality does not move down, above that of every earlier moment.

## Theorems

* `Detector.Effect.yieldsTo`: No operation but starting over moves finality
  down.
* `Detector.Effect.entry_above`, `Detector.Effect.observation_above`: What an
  operation adds lies above the final checkpoint.
* `Detector.Reaches.yieldsTo`: No run moves finality down.
* `Detector.finality_irrevocable`: A final checkpoint stays final, and
  nothing conflicts with it any more.
-/

namespace HeaderChain

namespace Detector

variable {settings : Settings}

theorem yieldsTo_takeIn (d : Detector) (force : Bool) (header : Header) (hash : HeaderHash)
    (provenance : Provenance) (ancestors : List Ancestor) :
    d.final.YieldsTo (d.takeIn settings force header hash provenance ancestors).final := by
  unfold final
  rw [history_takeIn]
  split
  · exact History.yieldsTo_commit _ _ _ _
  · exact .refl _

/-- No operation but starting over moves finality down. -/
theorem Effect.yieldsTo {d d' : Detector} {event : Event} {answer : Answer}
    (h : Effect settings d event answer d') (hrestart : event ≠ .restart) :
    d.final.YieldsTo d'.final := by
  cases h with
  | accept _ o header hash force _ _ _ _ =>
      exact d.yieldsTo_takeIn force header hash o.provenance o.ancestors
  | idle _ _ _ => exact .refl _
  | rollBack _ _ => exact .refl _
  | scan _ => exact .refl _
  | retreat _ _ => exact .refl _
  | clearForced => exact .refl _
  | restart => exact absurd rfl hrestart
  | settleAll => exact History.yieldsTo_settleAll d.history

/-- Every entry that a header adds lies above the final checkpoint. -/
theorem Sound.entry_above {d : Detector} (hs : d.Sound) {env : Surroundings} {header : Header}
    {provenance : Provenance} (hgate : d.gateFault? settings env header provenance = none)
    {force : Bool} {hash : HeaderHash} {ancestors : List Ancestor} {c : Checkpoint}
    (hc : c ∈ (d.takeIn settings force header hash provenance ancestors).history.checkpoints) :
    c ∈ d.history.checkpoints ∨ d.final.nonce < c.nonce := by
  rw [history_takeIn] at hc
  split at hc
  · rcases hs.checkpoint_above hgate hash with ⟨hown, hlow⟩
    -- An entry after a commit is an old one, the header's or an ancestor's.
    rcases hs.history.toOrdered.mem_commit hown hlow (fun a ha => (mem_window ha).2.2) hc with
      hold | rfl | ⟨a, ha, rfl⟩
    · exact .inl hold
    · exact .inr hown
    · exact .inr (mem_window ha).2.1
  · exact .inl hc

/-- Every observation that a header adds lies above the final checkpoint. -/
theorem Sound.observation_above {d : Detector} (hs : d.Sound) {env : Surroundings}
    {header : Header} {provenance : Provenance}
    (hgate : d.gateFault? settings env header provenance = none)
    {force : Bool} {hash : HeaderHash} {ancestors : List Ancestor} {o : Observation}
    (ho : o ∈ (d.takeIn settings force header hash provenance ancestors).table.observations) :
    o ∈ d.table.observations ∨ d.final.nonce < o.nonce := by
  rcases mem_table_takeIn ho with hold | hnonce | ⟨a, ha, hnonce⟩
  · exact .inl hold
  · rw [hnonce]
    exact .inr (final_lt_of_gate hs.history.final_low hgate).1
  · rw [hnonce]
    exact .inr (mem_window ha).2.1

/-- Every entry that an operation adds lies above the final checkpoint. -/
theorem Effect.entry_above {d d' : Detector} {event : Event} {answer : Answer}
    (h : Effect settings d event answer d') (hs : d.Sound) (hrestart : event ≠ .restart) :
    ∀ c ∈ d'.history.checkpoints, c ∈ d.history.checkpoints ∨ d.final.nonce < c.nonce := by
  intro c hc
  cases h with
  | accept _ _ _ _ _ _ _ hgate _ => exact hs.entry_above hgate (List.mem_filter.mp hc).1
  | idle _ _ _ => exact .inl hc
  | rollBack _ _ => exact .inl (List.mem_filter.mp hc).1
  | scan _ => exact .inl hc
  | retreat _ _ => exact .inl hc
  | clearForced => exact .inl hc
  | restart => exact absurd rfl hrestart
  | settleAll =>
      -- Making a checkpoint final adds no entry.
      have hraised := (List.mem_filter.mp hc).1
      rw [History.settleAll, History.checkpoints_raise] at hraised
      exact .inl hraised

/-- Every observation that an operation adds lies above the final
    checkpoint. -/
theorem Effect.observation_above {d d' : Detector} {event : Event} {answer : Answer}
    (h : Effect settings d event answer d') (hs : d.Sound) :
    ∀ o ∈ d'.table.observations, o ∈ d.table.observations ∨ d.final.nonce < o.nonce := by
  intro o ho
  cases h with
  | accept _ _ _ _ _ _ _ hgate _ =>
      exact hs.observation_above hgate
        (HeaderTable.mem_of_mem_keep (HeaderTable.mem_of_mem_keep ho))
  | idle _ _ _ => exact .inl ho
  | rollBack _ _ => exact .inl (HeaderTable.mem_of_mem_keep ho)
  | scan _ => exact .inl (HeaderTable.mem_of_mem_keep ho)
  | retreat _ _ => exact .inl ho
  | clearForced => exact .inl ho
  | restart => exact absurd ho List.not_mem_nil
  | settleAll => exact .inl (HeaderTable.mem_of_mem_keep (HeaderTable.mem_of_mem_keep ho))

/-- No run moves finality down, unless it starts over. -/
theorem Reaches.yieldsTo {d d' : Detector} {events : List Event}
    (h : Reaches settings d events d') (hrestart : .restart ∉ events) :
    d.final.YieldsTo d'.final := by
  induction h with
  | refl _ => exact .refl _
  | step d event events _ _ _ ih =>
      have hevent : event ≠ .restart := fun he => hrestart (he ▸ List.mem_cons_self)
      have hrest : .restart ∉ events := fun he => hrestart (List.mem_cons_of_mem event he)
      exact ((effect_step settings d event).yieldsTo hevent).trans (ih hrest)

/-- A final checkpoint stays final. Let a run go on from a reachable state
    without starting over. Then finality does not move down, another checkpoint
    of the same nonce never becomes final, and all that is accepted, entered
    or observed on the way lies above what was final. In the end the table
    holds nothing below it. -/
theorem finality_irrevocable {earlier later : List Event} {s t : Detector}
    (hs : Reaches settings genesis earlier s) (ht : Reaches settings s later t)
    (hrestart : .restart ∉ later) :
    s.final.nonce ≤ t.final.nonce ∧
      (t.final.nonce = s.final.nonce → t.final = s.final) ∧
      (∀ u event, Visits settings s later u event →
        (∀ env o header, event = .offer env o → o.header = some header →
          (u.step settings event).1 = .accepted → s.final.nonce < header.nonce) ∧
        (∀ c ∈ (u.step settings event).2.history.checkpoints,
          c ∉ u.history.checkpoints → s.final.nonce < c.nonce) ∧
        ∀ o ∈ (u.step settings event).2.table.observations,
          o ∉ u.table.observations → s.final.nonce < o.nonce) ∧
      ∀ o ∈ t.table.observations, s.final.nonce ≤ o.nonce := by
  have hsound := hs.sound sound_genesis
  have hyields := ht.yieldsTo hrestart
  refine ⟨hyields.nonce_le, hyields.eq_of_nonce_eq, ?_, ?_⟩
  · intro u event hu
    -- Up to the visit finality has not moved down, so what lies above it
    -- there lies above it at the start.
    rcases ht.of_visits hu with ⟨before, hbefore, hmem⟩
    have husound := hbefore.sound hsound
    have hle : s.final.nonce ≤ u.final.nonce :=
      (hbefore.yieldsTo fun he => hrestart (hmem _ he)).nonce_le
    have hevent : event ≠ .restart := fun he => hrestart (he ▸ hu.mem)
    have heffect := effect_step settings u event
    refine ⟨?_, ?_, ?_⟩
    · rintro env o header rfl hheader haccepted
      rcases step_of_accepted haccepted with ⟨header', _, _, hheader', _, hgate, _⟩
      rw [hheader, Option.some.injEq] at hheader'
      rw [hheader']
      exact UInt64.lt_of_le_of_lt hle (final_lt_of_gate husound.history.final_low hgate).1
    · intro c hc hnew
      rcases heffect.entry_above husound hevent c hc with hold | habove
      · exact absurd hold hnew
      · exact UInt64.lt_of_le_of_lt hle habove
    · intro o ho hnew
      rcases heffect.observation_above husound o ho with hold | habove
      · exact absurd hold hnew
      · exact UInt64.lt_of_le_of_lt hle habove
  · intro o ho
    exact UInt64.le_trans hyields.nonce_le ((ht.sound hsound).table.above o ho)

/-- A chain of two, whose first block is final. -/
def twoBlocks : List Event :=
  [Sample.offer 1 1 1 .processed [], Sample.offer 2 2 2 .processed []]

/-- The second block is rolled back, a competitor of the final block is turned
    away and another second block is made final. -/
def replacedTip : List Event :=
  [.rollBack 2 (Sample.hash 2), .rollBack 1 (Sample.hash 1), Sample.offer 1 9 7 .processed [],
    Sample.offer 2 9 8 .processed [], .settleAll]

/-- Through all of this the first block is not put into question. -/
theorem finality_of_replacedTip :
    ∃ s t, Reaches .standard genesis twoBlocks s ∧ Reaches .standard s replacedTip t ∧
      .restart ∉ replacedTip ∧ s.final = ⟨1, 1, some (Sample.hash 1)⟩ ∧
      t.final = ⟨2, 9, some (Sample.hash 8)⟩ ∧ s.final.nonce ≤ t.final.nonce ∧
      ∀ o ∈ t.table.observations, s.final.nonce ≤ o.nonce := by
  have hs : Reaches .standard genesis twoBlocks (genesis.run .standard twoBlocks) :=
    reaches_iff.mpr ⟨by decide, rfl⟩
  have ht : Reaches .standard (genesis.run .standard twoBlocks) replacedTip
      ((genesis.run .standard twoBlocks).run .standard replacedTip) :=
    reaches_iff.mpr ⟨by decide, rfl⟩
  have hrestart : .restart ∉ replacedTip := by
    simp only [replacedTip, Sample.offer, List.mem_cons, List.not_mem_nil, reduceCtorEq, or_false,
      not_false_eq_true]
  have h := finality_irrevocable hs ht hrestart
  exact ⟨_, _, hs, ht, hrestart, by decide, by decide, h.1, h.2.2.2⟩

end Detector

end HeaderChain

import HeaderChain.Proofs.Detector.Sound

/-!
# Certified Ancestors and Finality

Whether an ancestor that a parent chain has certified decides what is final.

Offered with a processed header, the first of the highest ancestors in the
window is meant to become final, over whatever the node itself has at its
nonce. It does if it lies above everything that the depth rule would make
final. It also ought to if it lies at the nonce of the checkpoint that the
depth rule picks, but there it comes too late: by then that checkpoint is
final, and an ancestor that does not lie above the final checkpoint is
ignored. So two blocks certified and processed at one nonce leave the
processed one final. `certified_isFinal_iff` says that this is the only
exception, and `shadowed_by_depth_rule` shows it at the default depth.

## Main definitions

* `Detector.IsFinal`: A checkpoint is final and the entry of its nonce.
* `Detector.DepthRulePicks`: The depth rule would make a checkpoint final.

## Theorems

* `Detector.isFinal_of_above`: An ancestor above what the depth rule picks
  becomes final.
* `Detector.isFinal_of_picked`: A checkpoint that the depth rule picks is
  final if no ancestor lies above it.
* `Detector.certified_isFinal_iff`: When the ancestor becomes final.
* `Detector.shadowed_by_depth_rule`: A case in which it does not.
-/

namespace HeaderChain

namespace Detector

/-- A checkpoint is final, and it is the one entry of its nonce. -/
def IsFinal (d : Detector) (c : Checkpoint) : Prop :=
  d.final = c ∧ ∀ e, e ∈ d.history.checkpoints ∧ e.nonce = c.nonce ↔ e = c

/-- The depth rule picks a checkpoint among the entries below a header and the
    header's own. -/
def DepthRulePicks (settings : Settings) (d : Detector) (header : Header) (hash : HeaderHash)
    (c : Checkpoint) : Prop :=
  IsDeepest (d.history.checkpoints.filter (·.nonce < header.nonce) ++ [header.checkpoint hash])
    settings.finalDepth header.nonce c

/-- In a sound detector an entry that is final is the one entry of its
    nonce. -/
theorem Sound.isFinal {d : Detector} (hs : d.Sound) {c : Checkpoint} (hfinal : d.final = c)
    (hc : c ∈ d.history.checkpoints) : d.IsFinal c := by
  refine ⟨hfinal, fun e => ⟨fun ⟨he, hnonce⟩ => ?_, ?_⟩⟩
  · exact hs.history.ascending.eq_of_nonce_eq he hc hnonce
  · rintro rfl
    exact ⟨hc, rfl⟩

section Commit

variable {settings : Settings} {d : Detector} {env : Surroundings} {header : Header}
  {hash : HeaderHash} {force : Bool} {ancestors : List Ancestor} {a : Ancestor} {c : Checkpoint}

/-- What a commit leaves final and among the entries is final when the header
    is taken in. -/
theorem Sound.isFinal_accept (hs : d.Sound)
    (hgate : d.gateFault? settings env header .processed = none)
    (hc : (d.history.commit settings.finalDepth (header.checkpoint hash)
        (d.window header ancestors)).final = c ∧
      c ∈ (d.history.commit settings.finalDepth (header.checkpoint hash)
        (d.window header ancestors)).checkpoints) :
    (d.accept settings force header hash .processed ancestors).IsFinal c := by
  refine (hs.accept hgate force hash ancestors).isFinal hc.1 ?_
  -- Pruning keeps the entry at the final nonce.
  refine List.mem_filter.mpr ⟨hc.2, decide_eq_true ?_⟩
  rw [← hc.1]
  exact UInt64.le_refl _

/-- An ancestor above what the depth rule picks becomes final. -/
theorem isFinal_of_above (hs : d.Sound)
    (hgate : d.gateFault? settings env header .processed = none)
    (ha : FirstHighest (d.window header ancestors) a)
    (habove : ∀ c, DepthRulePicks settings d header hash c → c.nonce < a.nonce) :
    (d.accept settings force header hash .processed ancestors).IsFinal a.checkpoint := by
  rcases final_lt_of_gate hs.history.final_low hgate with ⟨hlt, hlow⟩
  have hbetween := (mem_window (List.mem_of_find?_eq_some ha.first)).2
  exact hs.isFinal_accept hgate
    (hs.history.toOrdered.final_commit hlt hlow ha hbetween.1 hbetween.2 habove)

/-- A checkpoint that the depth rule picks is final if no ancestor lies above
    it. -/
theorem isFinal_of_picked (hs : d.Sound)
    (hgate : d.gateFault? settings env header .processed = none)
    (hc : DepthRulePicks settings d header hash c) (hup : d.final.nonce < c.nonce)
    (hbelow : ∀ a ∈ d.window header ancestors, a.nonce ≤ c.nonce) :
    (d.accept settings force header hash .processed ancestors).IsFinal c := by
  rcases final_lt_of_gate hs.history.final_low hgate with ⟨hlt, hlow⟩
  exact hs.isFinal_accept hgate (hs.history.toOrdered.commit_of_deepest hlt hlow hc hup hbelow)

end Commit

/-- The first of the highest ancestors becomes final exactly if the depth rule
    picks no other checkpoint at its nonce, supposed that it picks none above
    it. If it does pick one there, that one is final. -/
theorem certified_isFinal_iff {settings : Settings} {events : List Event} {d : Detector}
    (hd : Reaches settings genesis events d) {env : Surroundings} {o : Offer} {header : Header}
    {hash : HeaderHash} (hheader : o.header = some header) (hhash : o.hash = some hash)
    (hprocessed : o.provenance = .processed)
    (haccepted : (d.step settings (.offer env o)).1 = .accepted) {a : Ancestor}
    (ha : FirstHighest (d.window header o.ancestors) a)
    (hdeep : ∀ c, DepthRulePicks settings d header hash c → c.nonce ≤ a.nonce) :
    ((d.step settings (.offer env o)).2.IsFinal a.checkpoint ↔
        ∀ c, DepthRulePicks settings d header hash c → c.nonce = a.nonce → c = a.checkpoint) ∧
      ∀ c, DepthRulePicks settings d header hash c → c.nonce = a.nonce →
        (d.step settings (.offer env o)).2.IsFinal c := by
  have hs := hd.sound sound_genesis
  -- The header accepted is the one offered.
  rcases step_of_accepted haccepted with
    ⟨header', hash', force, hheader', hhash', hgate, _, hstep⟩
  rw [hheader, Option.some.injEq] at hheader'
  rw [hhash, Option.some.injEq] at hhash'
  rw [← hheader', hprocessed] at hgate
  rw [hstep, hprocessed, ← hheader', ← hhash']
  have hwindow := (mem_window (List.mem_of_find?_eq_some ha.first)).2
  -- A checkpoint picked at the nonce of the ancestor shuts all of them out.
  have hpicked : ∀ c, DepthRulePicks settings d header hash c → c.nonce = a.nonce →
      (d.accept settings force header hash .processed o.ancestors).IsFinal c := by
    intro c hc hnonce
    refine isFinal_of_picked hs hgate hc ?_ ?_
    · rw [hnonce]
      exact hwindow.1
    · rw [hnonce]
      exact ha.highest
  -- If one is picked there, it is final and so decides the matter. If none
  -- is, the ancestor lies above whatever is picked.
  refine ⟨⟨fun hfinal c hc hnonce => ?_, fun honly => ?_⟩, hpicked⟩
  · exact (hpicked c hc hnonce).1.symm.trans hfinal.1
  · by_cases htie : ∃ c, DepthRulePicks settings d header hash c ∧ c.nonce = a.nonce
    · rcases htie with ⟨c, hc, hnonce⟩
      rw [← honly c hc hnonce]
      exact hpicked c hc hnonce
    · refine isFinal_of_above hs hgate ha fun c hc => ?_
      exact UInt64.lt_of_le_of_ne (hdeep c hc) fun hnonce => htie ⟨c, hc, hnonce⟩

/-- Settings that make final what lies two nonces below the last one. -/
def lagTwo : Settings :=
  { Settings.standard with finalDepth := 2 }

/-- A chain of three. -/
def threeBlocks : List Event :=
  [Sample.offer 1 1 1 .processed [], Sample.offer 2 2 2 .processed [],
    Sample.offer 3 3 3 .processed []]

/-- A competitor of the third block that a parent chain has certified. -/
def certifiedThird : Ancestor :=
  ⟨3, 3, Sample.hash 30⟩

/-- Offered with the fourth block, the competitor becomes final. -/
theorem certified_displacesThird :
    ∃ d, Reaches lagTwo genesis threeBlocks d ∧ d.last = ⟨3, 3, some (Sample.hash 3)⟩ ∧
      (d.step lagTwo (Sample.offer 4 4 4 .processed [certifiedThird])).1 = .accepted ∧
      (d.step lagTwo (Sample.offer 4 4 4 .processed [certifiedThird])).2.IsFinal
        certifiedThird.checkpoint := by
  have hd : Reaches lagTwo genesis threeBlocks (genesis.run lagTwo threeBlocks) :=
    reaches_iff.mpr ⟨by decide, rfl⟩
  have ha : FirstHighest ((genesis.run lagTwo threeBlocks).window (Sample.header 4 4)
      [certifiedThird]) certifiedThird :=
    ⟨by decide, by decide⟩
  -- The depth rule picks the second block, one below the competitor.
  have hdeep : ∀ c, DepthRulePicks lagTwo (genesis.run lagTwo threeBlocks) (Sample.header 4 4)
      (Sample.hash 4) c → c.nonce < certifiedThird.nonce := by
    intro c hc
    exact hc.of_forall (p := (·.nonce < certifiedThird.nonce)) (by decide)
  refine ⟨_, hd, by decide, by decide, ?_⟩
  refine (certified_isFinal_iff hd rfl rfl rfl (by decide) ha fun c hc =>
    UInt64.le_of_lt (hdeep c hc)).1.mpr ?_
  exact fun c hc hnonce => absurd hnonce (UInt64.ne_of_lt (hdeep c hc))

/-- A competitor of the first block that a parent chain has certified. -/
def certifiedFirst : Ancestor :=
  ⟨1, 1, Sample.hash 9⟩

/-- Offered with the second block at the default depth, the competitor of the
    first does not become final. It is the highest ancestor, and the depth rule
    picks nothing above it. But it picks the first block itself, which is final
    and stays the entry of its nonce. -/
theorem shadowed_by_depth_rule :
    ∃ d, Reaches .standard genesis [Sample.offer 1 1 1 .processed []] d ∧
      (d.step .standard (Sample.offer 2 2 2 .processed [certifiedFirst])).1 = .accepted ∧
      FirstHighest (d.window (Sample.header 2 2) [certifiedFirst]) certifiedFirst ∧
      (∀ c, DepthRulePicks .standard d (Sample.header 2 2) (Sample.hash 2) c →
        c.nonce ≤ certifiedFirst.nonce) ∧
      (d.step .standard (Sample.offer 2 2 2 .processed [certifiedFirst])).2.final =
        ⟨1, 1, some (Sample.hash 1)⟩ ∧
      ¬ (d.step .standard (Sample.offer 2 2 2 .processed [certifiedFirst])).2.IsFinal
        certifiedFirst.checkpoint := by
  refine ⟨genesis.run .standard [Sample.offer 1 1 1 .processed []],
    reaches_iff.mpr ⟨by decide, rfl⟩, by decide, ⟨by decide, by decide⟩, ?_, by decide, ?_⟩
  · intro c hc
    exact hc.of_forall (p := (·.nonce ≤ certifiedFirst.nonce)) (by decide)
  · exact fun hfinal => absurd hfinal.1 (by decide)

end Detector

end HeaderChain

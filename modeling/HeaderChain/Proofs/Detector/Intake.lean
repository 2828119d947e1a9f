import HeaderChain.Proofs.Detector.Backing
import HeaderChain.Proofs.Detector.Origin
import HeaderChain.Proofs.HeaderTable.Strength
import HeaderChain.Proofs.History.Recommit

/-!
# Taking a Header In

What an accepted offer does to the table, header by header.

One offer may upgrade a header, replace one, add one, take in ancestors, move finality and
drop what that has made pointless. Seen from a single header that is held this comes down
to two questions: by what it is known afterwards, and whether it is still there.

To the first the answer is the strongest of what it was known by and what the offer
supplies for it. Nothing that is processed is ever downgraded, because nothing is stronger.
To the second there are three ways to go. Finality may have passed the header, or it may be
a received one that is ahead of the rounds as measured against the checkpoint that is final
now, or the offer may be of another processed header of its nonce. That the strongest source
decides and not the order of the observations is what makes the ways independent of each
other.

What the offer brings is there afterwards, except for ancestors that finality has passed.
A header that has passed the gates lies above the final checkpoint and has not gained more
nonces than rounds since then. If it is processed, finality may have moved since, but not
beyond it.

## Main definitions

* `Detector.supplied`: The observations that a header brings.
* `Detector.Displaces`: An operation makes a processed header give way.

## Theorems

* `Detector.table_takeIn_eq`: What a header brings is observed in order.
* `Detector.TakesIn.mem_supplied_iff`: It is what the operation supplies.
* `Detector.Sound.held_accept`: What becomes of a header that is held.
* `Detector.Sound.exists_own_accept`: The header that is taken in is there afterwards.
* `Detector.Sound.exists_ancestor_accept_iff`: Whether an ancestor in its window is.
* `Detector.table_of_accepted`: What an accepted offer does to the table of a reachable
  state.
-/

namespace HeaderChain

namespace Detector

/-- The observations that a header brings once it has passed the gates: its own unless it
    is a proposal, and if it is processed those of the ancestors in its window. -/
def supplied (d : Detector) (header : Header) (hash : HeaderHash) (provenance : Provenance)
    (ancestors : List Ancestor) : List Observation :=
  if provenance = .proposed then []
  else ⟨header.nonce, header.round, hash, provenance⟩ ::
    if provenance = .processed then (d.window header ancestors).map Ancestor.observation else []

/-- A processed header gives way, because an operation takes in another processed header of
    its nonce. -/
def Displaces (settings : Settings) (d : Detector) (event : Event) (x : Observation) : Prop :=
  x.provenance = .processed ∧ ∃ header hash ancestors,
    d.TakesIn settings event header hash .processed ancestors ∧ header.nonce = x.nonce ∧
      hash ≠ x.hash

variable {settings : Settings} {env : Surroundings} {d d' : Detector} {event : Event}
  {events : List Event} {o : Offer} {header : Header} {provenance : Provenance} {force : Bool}
  {hash : HeaderHash} {ancestors : List Ancestor} {x y : Observation}

/-- What a header brings is observed in order. -/
theorem table_takeIn_eq (settings : Settings) (d : Detector) (force : Bool) (header : Header)
    (hash : HeaderHash) (provenance : Provenance) (ancestors : List Ancestor) :
    (d.takeIn settings force header hash provenance ancestors).table
      = d.table.observeAll (d.supplied header hash provenance ancestors) := by
  rw [table_takeIn, supplied]
  split
  · rfl
  · rw [foldl_noteAncestor]
    split <;> rfl

/-- An operation takes in one header at most. -/
theorem TakesIn.eq {header' : Header} {hash' : HeaderHash} {provenance' : Provenance}
    {ancestors' : List Ancestor} (h : d.TakesIn settings event header hash provenance ancestors)
    (h' : d.TakesIn settings event header' hash' provenance' ancestors') :
    header' = header ∧ hash' = hash ∧ provenance' = provenance ∧ ancestors' = ancestors := by
  rcases h with ⟨⟨env, rfl⟩, _⟩
  rcases h' with ⟨⟨env', hevent⟩, _⟩
  cases hevent
  exact ⟨rfl, rfl, rfl, rfl⟩

/-- What a header brings is what taking it in supplies. -/
theorem TakesIn.mem_supplied_iff
    (h : d.TakesIn settings event header hash provenance ancestors) :
    x ∈ d.supplied header hash provenance ancestors ↔ Supplies settings x d event := by
  unfold supplied
  constructor
  · intro hx
    split at hx
    · exact absurd hx List.not_mem_nil
    · next hproposed =>
      rcases List.mem_cons.mp hx with rfl | hx
      · exact .header h hproposed
      · split at hx
        · next hprocessed =>
          rcases List.mem_map.mp hx with ⟨a, ha, rfl⟩
          exact .ancestor (h.certifies hprocessed ha)
        · exact absurd hx List.not_mem_nil
  · intro hx
    cases hx with
    | header htakes hproposed =>
        rcases h.eq htakes with ⟨rfl, rfl, rfl, rfl⟩
        rw [if_neg hproposed]
        exact List.mem_cons_self
    | ancestor hcertifies =>
        rcases hcertifies with ⟨_, _, _, htakes, hmem, hbetween⟩
        rcases h.eq htakes with ⟨rfl, rfl, rfl, rfl⟩
        exact List.mem_cons_of_mem _ (List.mem_map_of_mem (mem_window_iff.mpr ⟨hmem, hbetween⟩))

/-- So a header is known by its provenance and by what the operation supplies for it. -/
theorem TakesIn.sources_eq (h : d.TakesIn settings event header hash provenance ancestors)
    (x : Observation) :
    HeaderTable.sources x (d.supplied header hash provenance ancestors)
      = {p | p = x.provenance ∨ ∃ round, Supplies settings ⟨x.nonce, round, x.hash, p⟩ d event} := by
  ext p
  refine or_congr_right ⟨?_, ?_⟩
  · rintro ⟨⟨nonce, round, hash, _⟩, hb, rfl, rfl, rfl⟩
    exact ⟨round, h.mem_supplied_iff.mp hb⟩
  · rintro ⟨round, hb⟩
    exact ⟨_, h.mem_supplied_iff.mpr hb, rfl, rfl, rfl⟩

section TakeIn

variable (settings force hash ancestors)

theorem unprocessed_of_mem_window
    (hx : x ∈ (d.window header ancestors).map Ancestor.observation) :
    x.provenance ≠ .processed := by
  rcases List.mem_map.mp hx with ⟨a, _, rfl⟩
  exact nofun

theorem unprocessed_of_mem_ancestors
    (hx : x ∈ if provenance = .processed then (d.window header ancestors).map Ancestor.observation
      else []) : x.provenance ≠ .processed := by
  split at hx
  · exact unprocessed_of_mem_window ancestors hx
  · exact absurd hx List.not_mem_nil

/-- A header that is held and does not give way keeps the strongest of its sources. -/
theorem Sound.exists_strongest_takeIn (hs : d.Sound) (hx : x ∈ d.table.observations)
    (hroom : x.provenance = .processed → provenance = .processed → header.nonce = x.nonce →
      hash = x.hash) :
    ∃ p, IsGreatest (HeaderTable.sources x (d.supplied header hash provenance ancestors)) p ∧
      { x with provenance := p }
        ∈ (d.takeIn settings force header hash provenance ancestors).table.observations := by
  have ht := hs.table.toConsistent
  rw [table_takeIn_eq, supplied]
  split
  · exact ⟨x.provenance, HeaderTable.isGreatest_sources_nil x, hx⟩
  · rcases ht.exists_strongest_observe (o := ⟨header.nonce, header.round, hash, provenance⟩) hx
      hroom with ⟨p, hp, hmem⟩
    rcases (ht.observe _).exists_strongest_observeAll hmem
      (fun _ ho => unprocessed_of_mem_ancestors ancestors ho) with ⟨q, hq, hmem'⟩
    exact ⟨q, HeaderTable.isGreatest_sources_cons hp hq, hmem'⟩

/-- One that gives way is known by no more than before and is not held any more. -/
theorem Sound.not_mem_takeIn (hs : d.Sound) (hx : x ∈ d.table.observations)
    (hprocessed : x.provenance = .processed) (hnonce : header.nonce = x.nonce)
    (hhash : hash ≠ x.hash) :
    IsGreatest (HeaderTable.sources x (d.supplied header hash .processed ancestors)) x.provenance ∧
      ∀ y ∈ (d.takeIn settings force header hash .processed ancestors).table.observations,
        ¬(y.nonce = x.nonce ∧ y.hash = x.hash) := by
  -- The ancestors lie below the header, so they are of other nonces.
  have hbelow : ∀ b ∈ (d.window header ancestors).map Ancestor.observation,
      b.nonce ≠ x.nonce := by
    intro b hb
    rcases List.mem_map.mp hb with ⟨a, ha, rfl⟩
    have hlt := (mem_window ha).2.2
    rw [hnonce] at hlt
    exact UInt64.ne_of_lt hlt
  constructor
  · refine ⟨.inl rfl, fun q hq => ?_⟩
    rcases hq with rfl | ⟨b, hb, hbnonce, hbhash, _⟩
    · exact le_refl _
    · rcases List.mem_cons.mp hb with rfl | hb
      · exact absurd hbhash hhash
      · exact absurd hbnonce (hbelow b hb)
  · intro y hy hyx
    rw [table_takeIn_eq] at hy
    -- Nothing more happens to the row once the header is observed.
    have hyrow := HeaderTable.mem_row.mpr ⟨hy, hyx.1⟩
    have hrow := HeaderTable.row_observeAll_of_ne
      (t := d.table.observe ⟨header.nonce, header.round, hash, .processed⟩) hbelow
    have hy' := hrow ▸ hyrow
    exact hs.table.toConsistent.not_mem_observe_of_displaced hx hprocessed rfl hnonce hhash
      (HeaderTable.mem_row.mp hy').1 hyx

/-- What the header itself is known by is no less than what it is offered with. -/
theorem Sound.exists_own_takeIn (hs : d.Sound) (hproposed : provenance ≠ .proposed) :
    ∃ y ∈ (d.takeIn settings force header hash provenance ancestors).table.observations,
      y.nonce = header.nonce ∧ y.hash = hash ∧ provenance ≤ y.provenance := by
  rw [table_takeIn_eq, supplied, if_neg hproposed]
  rcases d.table.exists_mem_observe ⟨header.nonce, header.round, hash, provenance⟩ with
    ⟨y, hy, hnonce, hhash, hle⟩
  rcases (hs.table.toConsistent.observe _).exists_strongest_observeAll hy
    (fun _ ho => unprocessed_of_mem_ancestors ancestors ho) with ⟨p, hp, hmem⟩
  exact ⟨_, hmem, hnonce, hhash, le_trans hle (hp.2 (.inl rfl))⟩

/-- An ancestor in the window of a processed header is held, at least as notarized. -/
theorem Sound.exists_ancestor_takeIn (hs : d.Sound) {a : Ancestor}
    (ha : a ∈ d.window header ancestors) :
    ∃ y ∈ (d.takeIn settings force header hash .processed ancestors).table.observations,
      y.nonce = a.nonce ∧ y.hash = a.hash ∧ .notarized ≤ y.provenance := by
  rw [table_takeIn_eq]
  exact (hs.table.toConsistent.observe _).exists_mem_observeAll
    (fun _ ho => unprocessed_of_mem_window ancestors ho)
    (List.mem_map_of_mem ha)

variable (hgate : d.gateFault? settings env header provenance = none)

include hgate

/-- Finality does not go beyond a header that has passed the gates. -/
theorem Sound.final_accept_le (hs : d.Sound) :
    (d.accept settings force header hash provenance ancestors).final.nonce ≤ header.nonce := by
  have hown := (hs.checkpoint_above hgate hash).1
  change (d.takeIn settings force header hash provenance ancestors).history.final.nonce ≤ _
  rw [history_takeIn]
  split
  · exact History.final_commit_le hown (fun a ha => (mem_window ha).2.2) settings.finalDepth
  · exact UInt64.le_of_lt hown

/-- It is there afterwards. -/
theorem Sound.exists_own_accept (hs : d.Sound) (hproposed : provenance ≠ .proposed) :
    ∃ y ∈ (d.accept settings force header hash provenance ancestors).table.observations,
      y.nonce = header.nonce ∧ y.hash = hash ∧ provenance ≤ y.provenance := by
  rcases hs.exists_own_takeIn settings force hash ancestors hproposed with
    ⟨y, hy, hnonce, hhash, hle⟩
  have hfinal := hs.final_accept_le settings force hash ancestors hgate
  refine ⟨y, HeaderTable.mem_tidy.mpr ⟨hy, hnonce ▸ hfinal, ?_⟩, hnonce, hhash, hle⟩
  rintro ⟨hreceived, hpremature⟩
  have hprovenance : provenance = .received := by
    rw [hreceived] at hle
    cases provenance with
    | received => rfl
    | proposed => exact absurd rfl hproposed
    | _ => exact absurd hle (by decide)
  subst hprovenance
  -- Then finality has not moved, and the gate has measured the header against it.
  have hahead := of_decide_eq_true hpremature
  rcases hs.table.toRegular.mem_observe_of_received (o := ⟨header.nonce, header.round, hash,
    .received⟩) rfl hy with hold | rfl
  · exact Int.not_lt.mpr (hs.table.timely y hold hreceived) hahead
  · exact Int.not_lt.mpr (placed_of_gate hgate).2.1 hahead

/-- What becomes of a header that is held when another is taken in. -/
theorem Sound.held_accept (hs : d.Sound) (hx : x ∈ d.table.observations)
    (htakes : d.TakesIn settings event header hash provenance ancestors) :
    ∃ p, IsGreatest {q | q = x.provenance ∨
        ∃ round, Supplies settings ⟨x.nonce, round, x.hash, q⟩ d event} p ∧
      ({ x with provenance := p }
          ∈ (d.accept settings force header hash provenance ancestors).table.observations ↔
        ¬(x.nonce < (d.accept settings force header hash provenance ancestors).final.nonce ∨
          (p = .received ∧ HeaderTable.isPremature
            (d.accept settings force header hash provenance ancestors).final x = true) ∨
          Displaces settings d event x)) ∧
      ∀ y ∈ (d.accept settings force header hash provenance ancestors).table.observations,
        y.nonce = x.nonce → y.hash = x.hash → y = { x with provenance := p } := by
  rw [← htakes.sources_eq x]
  by_cases hdisplaced : Displaces settings d event x
  · -- It gives way.
    rcases id hdisplaced with ⟨hprocessed, _, _, _, htakes', hnonce, hne⟩
    rcases htakes.eq htakes' with ⟨rfl, rfl, rfl, _⟩
    rcases hs.not_mem_takeIn settings force _ ancestors hx hprocessed hnonce hne with
      ⟨hgreatest, hgone⟩
    refine ⟨x.provenance, hgreatest, ⟨fun hmem => ?_, fun hnot => ?_⟩,
      fun y hy hynonce hyhash => ?_⟩
    · exact absurd ⟨rfl, rfl⟩ (hgone _ (HeaderTable.mem_tidy.mp hmem).1)
    · exact absurd (.inr (.inr hdisplaced)) hnot
    · exact absurd ⟨hynonce, hyhash⟩ (hgone y (HeaderTable.mem_tidy.mp hy).1)
  · -- It is kept, and the tidying up decides.
    have hroom : x.provenance = .processed → provenance = .processed →
        header.nonce = x.nonce → hash = x.hash := fun hprocessed ho hnonce =>
      Decidable.byContradiction fun hne =>
        hdisplaced ⟨hprocessed, header, hash, ancestors, ho ▸ htakes, hnonce, hne⟩
    rcases hs.exists_strongest_takeIn settings force hash ancestors hx hroom with ⟨p, hp, hmem⟩
    refine ⟨p, hp, HeaderTable.mem_tidy.trans ⟨fun hkept hgone => ?_, fun hnot => ⟨hmem, ?_, ?_⟩⟩,
      fun y hy hynonce hyhash => ?_⟩
    · rcases hgone with hbelow | hpremature | hdisplaced'
      · exact UInt64.not_lt.mpr hkept.2.1 hbelow
      · exact hkept.2.2 hpremature
      · exact hdisplaced hdisplaced'
    · exact UInt64.not_lt.mp fun hbelow => hnot (.inl hbelow)
    · exact fun hpremature => hnot (.inr (.inl hpremature))
    · have ht := (hs.takeIn hgate force hash ancestors).table.toConsistent
      exact ht.eq_of_header_eq (HeaderTable.mem_tidy.mp hy).1 hmem hynonce hyhash

omit hgate in
/-- What becomes of an ancestor in the window. -/
theorem Sound.exists_ancestor_accept_iff (hs : d.Sound) {a : Ancestor}
    (ha : a ∈ d.window header ancestors) :
    (∃ y ∈ (d.accept settings force header hash .processed ancestors).table.observations,
        y.nonce = a.nonce ∧ y.hash = a.hash) ↔
      (d.accept settings force header hash .processed ancestors).final.nonce ≤ a.nonce := by
  constructor
  · rintro ⟨y, hy, hnonce, _⟩
    rw [← hnonce]
    exact (HeaderTable.mem_tidy.mp hy).2.1
  · intro hle
    rcases hs.exists_ancestor_takeIn settings force hash ancestors ha with
      ⟨y, hy, hnonce, hhash, hstrong⟩
    refine ⟨y, HeaderTable.mem_tidy.mpr ⟨hy, hnonce ▸ hle, fun hpremature => ?_⟩, hnonce, hhash⟩
    rw [hpremature.1] at hstrong
    exact absurd hstrong (by decide)

end TakeIn

/-- The effect of an accepted offer on the table of a reachable state. A header that was
    held is known by the strongest of what it was known by and what the offer supplies for
    it, so that a processed one remains processed. It is still there, with its round,
    unless it lies below the checkpoint that is final now, or is only received and ahead of
    the rounds since that, or was processed and another header of its nonce is processed
    now. A header that is not a proposal is there afterwards and known by no less than it
    was offered with. An ancestor in the window of a processed one is there if and only if
    it does not lie below the final checkpoint. Nothing else is there that was not there
    before. -/
theorem table_of_accepted (h : Reaches settings genesis events d)
    (haccepted : (d.step settings (.offer env o)).1 = .accepted)
    (hafter : (d.step settings (.offer env o)).2 = d') :
    (∀ x ∈ d.table.observations, ∃ p,
      IsGreatest {q | q = x.provenance ∨
        ∃ round, Supplies settings ⟨x.nonce, round, x.hash, q⟩ d (.offer env o)} p ∧
      (x.provenance = .processed → p = .processed) ∧
      ({ x with provenance := p } ∈ d'.table.observations ↔
        ¬(x.nonce < d'.final.nonce ∨
          (p = .received ∧
            distance x.round d'.final.round < distance x.nonce d'.final.nonce) ∨
          Displaces settings d (.offer env o) x)) ∧
      ∀ y ∈ d'.table.observations, y.nonce = x.nonce → y.hash = x.hash →
        y = { x with provenance := p }) ∧
    (∀ header hash, o.header = some header → o.hash = some hash → o.provenance ≠ .proposed →
      ∃ y ∈ d'.table.observations,
        y.nonce = header.nonce ∧ y.hash = hash ∧ o.provenance ≤ y.provenance) ∧
    (∀ a, d.Certifies settings (.offer env o) a →
      ((∃ y ∈ d'.table.observations, y.nonce = a.nonce ∧ y.hash = a.hash) ↔
        d'.final.nonce ≤ a.nonce)) ∧
    ∀ y ∈ d'.table.observations,
      (∃ x ∈ d.table.observations, x.nonce = y.nonce ∧ x.hash = y.hash) ∨
        ∃ round p, Supplies settings ⟨y.nonce, round, y.hash, p⟩ d (.offer env o) := by
  have hs := h.sound sound_genesis
  rcases step_of_accepted haccepted with ⟨header, hash, force, hheader, hhash, hgate, _, heq⟩
  have hd' : d' = d.accept settings force header hash o.provenance o.ancestors :=
    hafter.symm.trans heq
  have htakes := takesIn_of_accepted hheader hhash haccepted
  refine ⟨fun x hx => ?_, fun header' hash' hheader' hhash' hproposed => ?_, fun a ha => ?_,
    fun y hy => ?_⟩
  · subst hd'
    rcases hs.held_accept settings force hash o.ancestors hgate hx htakes with
      ⟨p, hp, hkept, hunique⟩
    refine ⟨p, hp, fun hprocessed => ?_, ?_, hunique⟩
    · have hle := hp.2 (.inl rfl)
      rw [hprocessed] at hle
      exact Provenance.eq_processed_of_le hle
    · simp only [HeaderTable.isPremature, decide_eq_true_eq] at hkept
      exact hkept
  · subst hd'
    cases hheader.symm.trans hheader'
    cases hhash.symm.trans hhash'
    exact hs.exists_own_accept settings force hash o.ancestors hgate hproposed
  · subst hd'
    rcases ha with ⟨_, _, _, htakes', hmem, hbetween⟩
    rcases htakes.eq htakes' with ⟨rfl, rfl, hprovenance, rfl⟩
    rw [← hprovenance]
    exact hs.exists_ancestor_accept_iff settings force _ o.ancestors
      (mem_window_iff.mpr ⟨hmem, hbetween⟩)
  · refine (effect_step settings d (.offer env o)).forall_mem rfl
      (HeaderTable.persists_place fun nonce _ hash =>
        (∃ x ∈ d.table.observations, x.nonce = nonce ∧ x.hash = hash) ∨
          ∃ round p, Supplies settings ⟨nonce, round, hash, p⟩ d (.offer env o))
      (fun x hx => .inl ⟨x, hx, rfl, rfl⟩) (fun x hx => .inr ⟨x.round, x.provenance, hx⟩) y ?_
    rw [hafter]
    exact hy

/-- A chain of three with a competitor of the second and of the third, and a header
    received far ahead of it. -/
def contestedBranch : List Event :=
  [Sample.offer 1 1 1 .processed [], Sample.offer 2 2 2 .processed [],
    Sample.offer 3 3 3 .processed [], Sample.offer 2 9 20 .received [],
    Sample.offer 3 9 30 .received [], Sample.offer 9 10 9 .received []]

/-- The competitor of the third, now processed, with that of the second as its ancestor. -/
def contestedThird : Offer :=
  ⟨some (Sample.header 3 10), some (Sample.hash 30), .processed, [⟨2, 5, Sample.hash 20⟩]⟩

/-- Both competitors are taken in, in other rounds than before. Finality moves to the
    second, which makes the header far ahead premature. Of the two competitors one has
    become notarized and the other processed, and the third block has given way. -/
theorem table_of_contestedBranch :
    ∃ d d', Reaches lagThree genesis contestedBranch d ∧
      (d.step lagThree (.offer (Sample.surroundings 10) contestedThird)).1 = .accepted ∧
      (d.step lagThree (.offer (Sample.surroundings 10) contestedThird)).2 = d' ∧
      d'.final = ⟨2, 5, some (Sample.hash 20)⟩ ∧
      d'.table.observations = [⟨2, 2, Sample.hash 2, .processed⟩,
        ⟨2, 9, Sample.hash 20, .notarized⟩, ⟨3, 9, Sample.hash 30, .processed⟩] ∧
      IsGreatest {q | q = Provenance.received ∨
        ∃ round, Supplies lagThree ⟨2, round, Sample.hash 20, q⟩ d
          (.offer (Sample.surroundings 10) contestedThird)} .notarized ∧
      ∃ y ∈ d'.table.observations,
        y.nonce = 3 ∧ y.hash = Sample.hash 30 ∧ .processed ≤ y.provenance := by
  have h : Reaches lagThree genesis contestedBranch (genesis.run lagThree contestedBranch) :=
    reaches_iff.mpr ⟨by decide +kernel, rfl⟩
  have haccepted : ((genesis.run lagThree contestedBranch).step lagThree
      (.offer (Sample.surroundings 10) contestedThird)).1 = .accepted := by decide +kernel
  rcases table_of_accepted h haccepted rfl with ⟨hheld, hown, _, _⟩
  rcases hheld ⟨2, 9, Sample.hash 20, .received⟩ (by decide +kernel) with
    ⟨p, hp, _, _, hunique⟩
  have heq := hunique ⟨2, 9, Sample.hash 20, .notarized⟩ (by decide +kernel) rfl rfl
  have hnotarized : p = .notarized := (congrArg Observation.provenance heq).symm
  refine ⟨_, _, h, haccepted, rfl, by decide +kernel, by decide +kernel, hnotarized ▸ hp, ?_⟩
  exact hown (Sample.header 3 10) (Sample.hash 30) rfl rfl nofun

end Detector

end HeaderChain

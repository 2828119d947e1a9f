import HeaderChain.Proofs.Detector.Backing
import HeaderChain.Proofs.Detector.Processed

/-!
# Resolving Forks

Giving way to the candidate that forks a nonce settles the nonce for good.

A fork is an order to switch: the node rolls its own header back and processes
the candidate in its place. Whether that leads anywhere is not obvious. Something
might be left of the row that forks the candidate in turn, the header might not
become the tip, and taking it in moves finality and drops headers, by which a lower
nonce could become forked that was not. The node would then go round in circles.

None of this happens. What forks a row is received and nothing else: a notarized
rival would have come before the own header, and then there would be no fork. So
rolling back clears the row, and the candidate is alone in it. The lower nonces
were not forked, or the check would have reported one of them, and by the same
check each of them has lost all rivals of its own header. Nothing is added to them
afterwards, so they stay that way. The next fork that is found, if any, is higher.

That the nonce lies above the final checkpoint need not be asked for, because the
candidate would not pass the gates otherwise, and neither need it be that no fork is
declared, because then no nonce would be reported.

## Main definitions

* `Detector.giveWay`: What a node does about a fork.
* `Detector.cleared`: The node before it takes in the candidate.

## Theorems

* `HeaderTable.Regular.row_retract_of_fork?`: Rolling back clears a forked row.
* `Detector.run_giveWay`: Where it leads if the candidate is accepted.
* `Detector.Sound.unforked_of_cleared`: No nonce up to that of the candidate is forked
  any more.
* `Detector.fork_resolved`: The nonce of a fork is settled by giving way.
-/

namespace HeaderChain

namespace HeaderTable

variable {t : HeaderTable} {nonce : UInt64} {own : Observation} {c : Candidate}

theorem Regular.row_retract_of_fork? (h : t.Regular) (hc : fork? (t.row nonce) = some c)
    (hown : own ∈ t.row nonce) (hprocessed : own.provenance = .processed) :
    (t.retract nonce own.hash).row nonce = [] := by
  refine List.eq_nil_iff_forall_not_mem.mpr fun o ho => ?_
  rcases mem_row_retract.mp ho with ⟨hrow, hhash, hunreceived⟩
  -- The own header goes by its hash, the others because they are received.
  by_cases heq : o = own
  · exact hhash (congrArg Observation.hash heq)
  · exact hunreceived (h.received_of_fork? hc (h.mem_rivals_of_ne hown hprocessed hrow heq))

end HeaderTable

namespace Detector

/-- What a node does about a fork: it checks for it, rolls its own header back and
    processes another of the same nonce. -/
def giveWay (own : Observation) (env : Surroundings) (header : Header) (hash : HeaderHash) :
    List Event :=
  [.check, .rollBack own.nonce own.hash, .offer env ⟨some header, some hash, .processed, []⟩]

/-- The node before it processes the other header: its table is scanned and its own
    header rolled back. -/
def cleared (d : Detector) (own : Observation) : Detector :=
  { d with table := d.table.scan.2 }.rollBack own.nonce own.hash

variable {settings : Settings} {d u : Detector} {env : Surroundings} {header : Header}
  {hash : HeaderHash} {events : List Event} {nonce : UInt64} {c : Candidate} {own : Observation}

-- What is cleared.

theorem Sound.cleared (hs : d.Sound) (own : Observation) : (d.cleared own).Sound :=
  hs.scan.rollBack own.nonce own.hash

theorem Sound.row_cleared (hs : d.Sound) (hown : own ∈ d.table.row nonce)
    (hprocessed : own.provenance = .processed)
    (hc : HeaderTable.fork? (d.table.row nonce) = some c) : (d.cleared own).table.row nonce = [] := by
  -- The check leaves a forked row as it is.
  have ht := hs.table.toRegular
  have hc' : HeaderTable.fork? (d.table.scan.2.row nonce) = some c :=
    (ht.fork?_scan nonce).trans hc
  have hown' := ht.mem_row_scan_of_processed hown hprocessed
  have hclear := (ht.keep _ : d.table.scan.2.Regular).row_retract_of_fork? hc' hown' hprocessed
  rw [← (HeaderTable.mem_row.mp hown).2] at hclear ⊢
  exact hclear

/-- After the header is taken in, no nonce up to its own is forked. -/
theorem Sound.unforked_of_cleared (hs : d.Sound) (hown : own ∈ d.table.row header.nonce)
    (hprocessed : own.provenance = .processed)
    (hverdict : d.table.scan.1 = .forked header.nonce c)
    (hgate : (d.cleared own).gateFault? settings env header .processed = none)
    (hash : HeaderHash) {other : UInt64} (hle : other ≤ header.nonce) :
    HeaderTable.fork?
      (((d.cleared own).accept settings false header hash .processed []).table.row other)
        = none := by
  rcases HeaderTable.verdict_eq_forked_iff.mp hverdict with ⟨hc, hlower⟩
  have hs' := hs.cleared own
  have hfresh := hs.row_cleared hown hprocessed hc
  rcases UInt64.lt_or_eq_of_le hle with hlt | rfl
  · -- A lower row was not forked, and what is left of it was left by the check.
    have hne := UInt64.ne_of_lt hlt
    refine hs.table.toConsistent.fork?_eq_none_of_scanned
      (hs'.accept hgate false hash []).table.toConsistent (hlower other hlt) ?_
    have hcleared : (d.cleared own).table.row other = d.table.scan.2.row other := by
      rw [← (HeaderTable.mem_row.mp hown).2] at hne
      exact HeaderTable.row_retract_of_ne hne
    rw [← hcleared]
    exact row_accept_subset hfresh false hash hne
  · rw [hs'.row_accept_fresh hfresh false hash hgate]
    exact HeaderTable.fork?_singleton _

/-- If a fork is reported and the candidate is accepted, the fork is one of the table
    and the candidate was taken in where it is cleared. -/
theorem run_giveWay
    (hanswers : (d.trace settings (giveWay own env header hash)).map (·.answer)
      = [.verdict (.forked nonce c), .done, .accepted]) :
    d.forced = false ∧ d.table.scan.1 = .forked nonce c ∧
      (d.cleared own).gateFault? settings env header .processed = none ∧
      d.run settings (giveWay own env header hash)
        = (d.cleared own).accept settings false header hash .processed [] := by
  simp only [giveWay, trace, List.map_cons, List.map_nil, List.cons.injEq, and_true] at hanswers
  rcases hanswers with ⟨hcheck, _, haccepted⟩
  -- A node that has declared a fork reports that and no nonce.
  have hforced : d.forced = false := by
    cases hforced : d.forced with
    | false => rfl
    | true =>
        simp only [step, check, hforced, if_true, reduceCtorEq, Answer.verdict.injEq] at hcheck
  have hscan := step_check_of_unforced settings hforced
  rw [hscan] at hcheck haccepted
  change ((d.cleared own).step settings _).1 = .accepted at haccepted
  have hgate : (d.cleared own).gateFault? settings env header .processed = none := by
    rcases step_of_accepted haccepted with ⟨_, _, _, hheader, _, hgate, _, _⟩
    cases hheader
    exact hgate
  refine ⟨hforced, Answer.verdict.inj hcheck, hgate, ?_⟩
  simp only [giveWay, run, List.foldl_cons, List.foldl_nil, hscan]
  exact congrArg Prod.snd (step_processed hgate hash [])

/-- The nonce of a fork is settled by giving way. Let a node in any reachable state
    check for forks, roll its own header of a nonce back and offer a header of that
    nonce as processed, without ancestors. If the check reports that nonce with the
    hash of the header that is offered, and the offer is accepted, then the header is
    the only one of its nonce and the last checkpoint, and the next check finds either
    no fork or one of a higher nonce. -/
theorem fork_resolved (h : Reaches settings genesis events d) (hown : own ∈ d.table.row nonce)
    (hprocessed : own.provenance = .processed) (hnonce : header.nonce = nonce)
    (hanswers : (d.trace settings (giveWay own env header c.hash)).map (·.answer)
      = [.verdict (.forked nonce c), .done, .accepted])
    (hu : u = d.run settings (giveWay own env header c.hash)) :
    u.table.row nonce = [⟨nonce, header.round, c.hash, .processed⟩] ∧
      u.last = ⟨nonce, header.round, some c.hash⟩ ∧
      ((u.step settings .check).1 = .verdict .clear ∨
        ∃ higher b, nonce < higher ∧
          (u.step settings .check).1 = .verdict (.forked higher b)) := by
  subst hnonce
  have hs := h.sound sound_genesis
  have hs' := hs.cleared own
  rcases run_giveWay hanswers with ⟨hforced, hverdict, hgate, hrun⟩
  have hrow := hs.row_cleared hown hprocessed (HeaderTable.verdict_eq_forked_iff.mp hverdict).1
  rw [hrun] at hu
  subst hu
  refine ⟨hs'.row_accept_fresh hrow false c.hash hgate,
    hs'.last_accept_processed hgate false c.hash, ?_⟩
  have hunforced : ((d.cleared own).accept settings false header c.hash .processed []).forced
      = false := by
    rw [forced_accept, Bool.or_false]
    exact hforced
  rw [step_check_of_unforced settings hunforced]
  rcases HeaderTable.verdict_cases
    ((d.cleared own).accept settings false header c.hash .processed []).table with
    hclear | ⟨higher, b, hforked⟩
  · exact .inl (congrArg Answer.verdict hclear)
  · refine .inr ⟨higher, b, UInt64.not_le.mp fun hle => ?_, congrArg Answer.verdict hforked⟩
    have hb := (HeaderTable.verdict_eq_forked_iff.mp hforked).1
    rw [hs.unforked_of_cleared hown hprocessed hverdict hgate c.hash hle] at hb
    exact absurd hb (by simp only [reduceCtorEq, not_false_eq_true])

/-- A chain of three blocks that are not final. Each has a competitor, to which the
    second and the third have to give way but not the first. -/
def threeContested : List Event :=
  [Sample.offer 1 10 1 .processed [], Sample.offer 1 9 7 .received [],
    Sample.offer 2 5 2 .processed [], Sample.offer 2 9 9 .received [],
    Sample.offer 3 6 3 .processed [], Sample.offer 3 10 8 .received []]

/-- The second gives way to its competitor. -/
def secondGivesWay : List Event :=
  giveWay ⟨2, 5, Sample.hash 2, .processed⟩ (Sample.surroundings 10) (Sample.header 2 9)
    (Sample.hash 9)

/-- After that the fork of the third is found, and the first stands alone. -/
theorem fork_of_threeContested_resolved :
    ∃ d u : Detector, Reaches lagThree genesis threeContested d ∧
      ⟨2, 5, Sample.hash 2, .processed⟩ ∈ d.table.row 2 ∧
      (d.trace lagThree secondGivesWay).map (·.answer)
        = [.verdict (.forked 2 ⟨.observed 9, Sample.hash 9⟩), .done, .accepted] ∧
      u = d.run lagThree secondGivesWay ∧
      u.table.row 2 = [⟨2, 9, Sample.hash 9, .processed⟩] ∧
      u.last = ⟨2, 9, some (Sample.hash 9)⟩ ∧
      u.table.row 1 = [⟨1, 10, Sample.hash 1, .processed⟩] ∧
      (u.step lagThree .check).1 = .verdict (.forked 3 ⟨.observed 10, Sample.hash 8⟩) := by
  have h : Reaches lagThree genesis threeContested (genesis.run lagThree threeContested) :=
    reaches_iff.mpr ⟨by decide, rfl⟩
  have hown : ⟨2, 5, Sample.hash 2, .processed⟩
      ∈ (genesis.run lagThree threeContested).table.row 2 := by decide
  have hanswers : ((genesis.run lagThree threeContested).trace lagThree secondGivesWay).map
      (·.answer) = [.verdict (.forked 2 ⟨.observed 9, Sample.hash 9⟩), .done, .accepted] := by
    decide
  have hnonce : (Sample.header 2 9).nonce = 2 := rfl
  have hresolved := fork_resolved (c := ⟨.observed 9, Sample.hash 9⟩) h hown rfl hnonce hanswers
    rfl
  exact ⟨_, _, h, hown, hanswers, rfl, hresolved.1, hresolved.2.1, by decide, by decide⟩

end Detector

end HeaderChain

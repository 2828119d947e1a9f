import HeaderChain.Proofs.Detector.Certified
import HeaderChain.Proofs.Detector.Processed
import HeaderChain.Proofs.Detector.Redelivery
import HeaderChain.Proofs.Detector.Rounds

/-!
# The Depth Rule

What the depth rule makes final, and the margin that it keeps.

A processed header cuts the history off at its nonce and is put on top. The rule then looks
for the highest entry that lies deep enough below the header. The search runs from the end of
the list and stops at the first hit, which is the highest one because the list ascends. It
adds in words, and a sum that does not fit is cut off. Neither shows: no header of a high
nonce passes the gates, so deep enough means what it says. If what is found lies above the
final checkpoint it is final, and otherwise nothing moves.

Without certified ancestors and without declaring the last checkpoint final there is no
other way for finality to move up. So whenever anything but the first block is final, a
processed header has been accepted that lies deep enough above it. That header may have been
rolled back since.

## Theorems

* `Detector.accept_eq_of_window_eq_nil`: Ancestors outside the window do nothing.
* `Detector.Sound.final_accept_of_le`: Finality stays if nothing above it is deep enough.
* `Detector.Effect.final_cases`: Finality moves only with a header deep enough above it.
* `Detector.depth_rule_exact`: What the rule does in a reachable state, and its margin over
  a run.
-/

namespace HeaderChain

namespace Detector

variable {settings : Settings} {env : Surroundings} {d d' : Detector} {event : Event}
  {events : List Event} {header : Header} {hash : HeaderHash} {ancestors : List Ancestor}

/-- If no ancestor lies in the window, the header may as well list none. -/
theorem accept_eq_of_window_eq_nil (hwindow : d.window header ancestors = [])
    (settings : Settings) (force : Bool) (hash : HeaderHash) :
    d.accept settings force header hash .processed ancestors
      = d.accept settings force header hash .processed [] := by
  have htakeIn : d.takeIn settings force header hash .processed ancestors
      = d.takeIn settings force header hash .processed [] := by
    refine Detector.ext ?_ ?_ rfl rfl rfl rfl
    · rw [table_takeIn, table_takeIn, hwindow]
      rfl
    · rw [history_takeIn, history_takeIn, hwindow]
      rfl
  rw [accept, accept, htakeIn]

section Accept

variable (hs : d.Sound) (hgate : d.gateFault? settings env header .processed = none)

include hs hgate

/-- Finality stays where it is if nothing that the depth rule picks lies above it. -/
theorem Sound.final_accept_of_le (force : Bool)
    (hidle : ∀ c, DepthRulePicks settings d header hash c → c.nonce ≤ d.final.nonce) :
    (d.accept settings force header hash .processed []).final = d.final := by
  rcases hs.checkpoint_above hgate hash with ⟨hown, hlow⟩
  have hlast := History.last_push d.history (header.checkpoint hash)
  rw [final, history_accept_processed]
  rcases (hs.history.toOrdered.push hown hlow).settle_cases (hlast.symm ▸ hlow)
    settings.finalDepth with hsame | ⟨c, hc, hraise⟩
  · rw [hsame]
    rfl
  · rw [hlast] at hc
    have hle : c.nonce ≤ (d.history.push (header.checkpoint hash)).final.nonce := hidle c hc
    rw [hraise, History.raise_of_le hle]
    rfl

omit hs hgate in
/-- Of the entries that the header is put on top of, and its own, those below the final
    checkpoint are dropped. -/
theorem checkpoints_accept (force : Bool) (hash : HeaderHash) :
    (d.accept settings force header hash .processed []).history.checkpoints
      = (d.history.checkpoints.filter (·.nonce < header.nonce)
          ++ [header.checkpoint hash]).filter
        ((d.accept settings force header hash .processed []).final.nonce ≤ ·.nonce) := by
  have hentries : ((d.history.push (header.checkpoint hash)).settle
      settings.finalDepth).checkpoints
      = d.history.checkpoints.filter (·.nonce < header.nonce) ++ [header.checkpoint hash] :=
    History.checkpoints_settle _ _
  rw [← hentries]
  rfl

/-- A new final checkpoint lies deep enough below the header. -/
theorem Sound.final_accept_cases (force : Bool) (hash : HeaderHash) :
    (d.accept settings force header hash .processed []).final = d.final ∨
      (d.accept settings force header hash .processed []).final.nonce.toNat
        + settings.finalDepth.toNat ≤ header.nonce.toNat := by
  rcases hs.checkpoint_above hgate hash with ⟨hown, hlow⟩
  have hlast := History.last_push d.history (header.checkpoint hash)
  have hcases := (hs.history.toOrdered.push hown hlow).final_settle_cases (hlast.symm ▸ hlow)
    settings.finalDepth
  rw [hlast] at hcases
  exact hcases.imp_right fun hdeep => hdeep.2

end Accept

theorem not_certifies_of_bare (hbare : event.Bare) (a : Ancestor) :
    ¬ d.Certifies settings event a := by
  rintro ⟨header, hash, ancestors, ⟨⟨env, rfl⟩, _⟩, hmem, _⟩
  have hnone : ancestors = [] := hbare
  rw [hnone] at hmem
  exact absurd hmem List.not_mem_nil

/-- If no ancestor is certified and the last checkpoint is not declared final, finality
    moves only with a processed header that lies deep enough above it. -/
theorem Effect.final_cases {answer : Answer} (h : Effect settings d event answer d')
    (hanswer : (d.step settings event).1 = answer) (hs : d.Sound)
    (hnone : ∀ a, ¬ d.Certifies settings event a) (hsettle : event ≠ .settleAll)
    (hrestart : event ≠ .restart) :
    d'.final = d.final ∨ ∃ header hash ancestors,
      d.TakesIn settings event header hash .processed ancestors ∧
        d'.final.nonce.toNat + settings.finalDepth.toNat ≤ header.nonce.toNat := by
  cases h with
  | accept env o header hash force hheader hhash hgate _ =>
      have htakes := takesIn_of_accepted hheader hhash hanswer
      by_cases hp : o.provenance = .processed
      · -- An ancestor in the window would be certified.
        have hwindow : d.window header o.ancestors = [] :=
          List.eq_nil_iff_forall_not_mem.mpr fun a ha => hnone a (htakes.certifies hp ha)
        rw [hp] at hgate htakes
        rw [hp, accept_eq_of_window_eq_nil hwindow]
        rcases hs.final_accept_cases hgate force hash with hsame | hdeep
        · exact .inl hsame
        · exact .inr ⟨header, hash, o.ancestors, htakes, hdeep⟩
      · left
        rw [final, history_accept, history_takeIn, if_neg hp]
        rfl
  | idle _ _ _ => exact .inl rfl
  | rollBack _ _ => exact .inl rfl
  | scan _ => exact .inl rfl
  | retreat _ _ => exact .inl rfl
  | clearForced => exact .inl rfl
  | restart => exact absurd rfl hrestart
  | settleAll => exact absurd rfl hsettle

/-- A processed header was taken in that lies deep enough above a nonce. -/
def Overtops (settings : Settings) (nonce : UInt64) (d : Detector) (event : Event) : Prop :=
  ∃ header hash ancestors, d.TakesIn settings event header hash .processed ancestors ∧
    nonce.toNat + settings.finalDepth.toNat ≤ header.nonce.toNat

/-- A run that certifies no ancestor and never declares the last checkpoint final. -/
structure DepthRuled (settings : Settings) (events : List Event) : Prop where
  /-- No ancestor is certified on the way. -/
  uncertified : ∀ u event, Visits settings genesis events u event →
    ∀ a, ¬ u.Certifies settings event a
  /-- The last checkpoint is not declared final. -/
  unsettled : .settleAll ∉ events

/-- The margin over a run: unless the final checkpoint is at nonce zero, a header far
    enough above it has been taken in since the last restart. -/
theorem overtopped_of_reaches (h : Reaches settings genesis events d)
    (hruled : DepthRuled settings events) :
    d.final.nonce = 0 ∨ Since settings genesis (· = .restart) (Overtops settings d.final.nonce)
      events := by
  refine h.tracked (P := fun events d => DepthRuled settings events → d.final.nonce = 0 ∨
    Since settings genesis (· = .restart) (Overtops settings d.final.nonce) events)
    (fun _ => .inl rfl) ?_ hruled
  intro before u event hu ih hruled
  have hbefore : DepthRuled settings before :=
    ⟨fun v e hv => hruled.uncertified v e (hv.append_right [event]),
      fun hmem => hruled.unsettled (List.mem_append_left _ hmem)⟩
  have hvisit : Visits settings genesis (before ++ [event]) u event :=
    ⟨before, [], rfl, hu.eq_run⟩
  by_cases hrestart : event = .restart
  · -- The first block is at nonce zero.
    subst hrestart
    exact .inl rfl
  · have hsettle : event ≠ .settleAll := fun he => hruled.unsettled (he ▸ hvisit.mem)
    rcases (effect_step settings u event).final_cases rfl (hu.sound sound_genesis)
      (hruled.uncertified u event hvisit) hsettle hrestart with hsame | hovertops
    · -- Finality stands, and so does what lies above it.
      rw [hsame]
      exact (ih hbefore).imp_right fun hsince => since_concat.mpr (.inr ⟨hsince, hrestart⟩)
    · exact .inr (since_concat.mpr (.inl (hu.eq_run ▸ hovertops)))

/-- The depth rule is exact. Let a processed header be accepted in a reachable state without
    an ancestor in its window, and let the rule pick among the entries below the header and
    its own. What it picks is final afterwards if that lies above the final checkpoint of
    before, and otherwise nothing has moved. The history is what does not lie below the final
    checkpoint, and the header is the last one. Over a run in which no ancestor is certified
    and the last checkpoint is not declared final, a final checkpoint of a nonce other than
    zero lies as deep as the rule asks below a processed header that was accepted since the
    last restart. -/
theorem depth_rule_exact (h : Reaches settings genesis events d) :
    (∀ env o header hash, o.header = some header → o.hash = some hash →
      o.provenance = .processed → d.window header o.ancestors = [] →
      (d.step settings (.offer env o)).1 = .accepted →
      ∀ d', (d.step settings (.offer env o)).2 = d' →
        (∀ c, DepthRulePicks settings d header hash c → d.final.nonce < c.nonce →
          d'.final = c) ∧
        ((∀ c, DepthRulePicks settings d header hash c → c.nonce ≤ d.final.nonce) →
          d'.final = d.final) ∧
        d'.history.checkpoints
          = (d.history.checkpoints.filter (·.nonce < header.nonce)
              ++ [header.checkpoint hash]).filter (d'.final.nonce ≤ ·.nonce) ∧
        d'.last = header.checkpoint hash) ∧
    (DepthRuled settings events → 0 < d.final.nonce →
      Since settings genesis (· = .restart) (Overtops settings d.final.nonce) events) := by
  have hs := h.sound sound_genesis
  constructor
  · intro env o header hash hheader hhash hprocessed hwindow haccepted d' hafter
    rcases step_of_accepted haccepted with
      ⟨header', hash', force, hheader', hhash', hgate, _, hstep⟩
    cases hheader.symm.trans hheader'
    cases hhash.symm.trans hhash'
    rw [hprocessed] at hgate
    rw [← hafter, hstep, hprocessed, accept_eq_of_window_eq_nil hwindow]
    refine ⟨fun c hc hup => ?_, hs.final_accept_of_le hgate force, checkpoints_accept force hash,
      hs.last_accept_processed hgate force hash⟩
    exact (isFinal_of_picked hs hgate hc hup fun a ha => absurd ha List.not_mem_nil).1
  · intro hruled hpos
    refine (overtopped_of_reaches h hruled).resolve_left fun hzero => ?_
    rw [hzero] at hpos
    exact absurd hpos (UInt64.lt_irrefl 0)

/-- A chain of three whose tip is rolled back. -/
def withdrawnThird : List Event :=
  threeBlocks ++ [.rollBack 3 (Sample.hash 3)]

/-- A fourth block with an ancestor above it. -/
def fourthOnSecond : Offer :=
  ⟨some (Sample.header 4 4), some (Sample.hash 4), .processed, [⟨7, 7, Sample.hash 7⟩]⟩

/-- The first block is two below the third, which is not there any more. When the fourth is
    put on top of the second, that one becomes final. -/
theorem depth_rule_of_withdrawnThird :
    ∃ d, Reaches lagTwo genesis withdrawnThird d ∧ d.final = ⟨1, 1, some (Sample.hash 1)⟩ ∧
      Since lagTwo genesis (· = .restart) (Overtops lagTwo 1) withdrawnThird ∧
      (d.step lagTwo (.offer (Sample.surroundings 10) fourthOnSecond)).1 = .accepted ∧
      (d.step lagTwo (.offer (Sample.surroundings 10) fourthOnSecond)).2.final
        = ⟨2, 2, some (Sample.hash 2)⟩ ∧
      (d.step lagTwo (.offer (Sample.surroundings 10) fourthOnSecond)).2.last
        = ⟨4, 4, some (Sample.hash 4)⟩ := by
  have h : Reaches lagTwo genesis withdrawnThird (genesis.run lagTwo withdrawnThird) :=
    reaches_iff.mpr ⟨by decide +kernel, rfl⟩
  have hbare : ∀ event ∈ withdrawnThird, event.Bare := by decide
  have hruled : DepthRuled lagTwo withdrawnThird :=
    ⟨fun u event hu => not_certifies_of_bare (hbare event hu.mem), by
      simp only [withdrawnThird, threeBlocks, Sample.offer, List.cons_append, List.nil_append,
        List.mem_cons, List.not_mem_nil, reduceCtorEq, or_false, not_false_eq_true]⟩
  have hpicks : DepthRulePicks lagTwo (genesis.run lagTwo withdrawnThird) (Sample.header 4 4)
      (Sample.hash 4) ⟨2, 2, some (Sample.hash 2)⟩ :=
    ⟨by decide +kernel, by decide +kernel, by decide +kernel⟩
  have haccepted : ((genesis.run lagTwo withdrawnThird).step lagTwo
      (.offer (Sample.surroundings 10) fourthOnSecond)).1 = .accepted := by decide +kernel
  have hrule := (depth_rule_exact h).1 (Sample.surroundings 10) fourthOnSecond _ _ rfl rfl rfl
    (by decide +kernel) haccepted _ rfl
  have hmargin := (depth_rule_exact h).2 hruled (by decide +kernel)
  exact ⟨_, h, by decide +kernel, hmargin, haccepted, hrule.1 _ hpicks (by decide +kernel),
    hrule.2.2.2⟩

end Detector

end HeaderChain

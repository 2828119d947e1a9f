import HeaderChain.Proofs.Detector.Backing
import HeaderChain.Proofs.Detector.Origin
import HeaderChain.Proofs.History.Recommit

/-!
# The Branch That Is Left

Which of the headers processed on a run the checkpoints still describe, and what the
table keeps of the others.

A header that is processed below the last checkpoint starts a branch, and the checkpoints
from its nonce on make room for it. The table makes room at that nonce only. Above it the
headers of the branch that gave way stay where they are, as processed ones, until others
are processed at their nonces, they are rolled back or finality passes them. So on a run
on which nothing is rolled back the table can hold processed headers that no checkpoint
knows of, even above the last one.

To say which, nothing needs to be known of the run but the headers processed on it, in
their order. The checkpoints above the final one are those of the headers that stand:
nothing at their nonce or below was processed after them. This is what pushing them one by
one leaves. The depth rule, the ancestors and pruning change no more of it than that
finality rises, so the two agree wherever they still can be compared.

A run on which the nonces of the processed headers never go down starts no branch below
another. There nothing is left behind.

## Main definitions

* `History.Stands`: Nothing at its nonce or below was pushed after an entry.
* `History.Reflects`: Above the final checkpoint a history has the entries that stand.
* `Detector.pushed`: The checkpoints of the headers that are processed on a run.
* `Event.isWatch`: An operation offers a header or checks for forks.
* `Detector.Checkpointed`: A header has a checkpoint.

## Theorems

* `History.stands_concat`: What pushing one more entry leaves standing.
* `History.exists_stands_of_mem`: If the nonces never go down, an entry of every nonce
  stands.
* `History.Ordered.reflects_commit`: A commit is a push, as far as this goes.
* `Detector.Reaches.reflects`: The history reflects the headers processed on a run.
* `Detector.Attested.exists_pushed`: What the table holds as processed was pushed.
* `Detector.processed_checkpointed_iff`: Which processed headers of the table have a
  checkpoint.
-/

namespace HeaderChain

namespace History

/-- An entry stands if nothing at its nonce or below was pushed after it. -/
def Stands (pushed : List Checkpoint) (c : Checkpoint) : Prop :=
  ∃ before after, pushed = before ++ c :: after ∧ ∀ e ∈ after, c.nonce < e.nonce

/-- Above its final checkpoint a history has the entries that stand, and no others. -/
def Reflects (h : History) (pushed : List Checkpoint) : Prop :=
  ∀ c : Checkpoint, h.final.nonce < c.nonce → (c ∈ h.checkpoints ↔ Stands pushed c)

variable {h : History} {pushed : List Checkpoint} {own c : Checkpoint} {depth : UInt64}
  {as : List Ancestor}

theorem not_stands_nil : ¬ Stands [] c := by
  rintro ⟨before, after, hsplit, _⟩
  exact absurd hsplit.symm (List.append_ne_nil_of_right_ne_nil before (List.cons_ne_nil c after))

/-- An entry that is pushed stands, and of those before it the lower ones still do. -/
theorem stands_concat :
    Stands (pushed ++ [own]) c ↔ (Stands pushed c ∧ c.nonce < own.nonce) ∨ c = own := by
  constructor
  · rintro ⟨before, after, hsplit, habove⟩
    rcases Detector.concat_eq_append_cons_iff.mp hsplit with ⟨_, _, rfl⟩ | ⟨rest, rfl, rfl⟩
    · exact .inr rfl
    · refine .inl ⟨⟨before, rest, rfl, fun e he => ?_⟩, ?_⟩
      · exact habove e (List.mem_append_left _ he)
      · exact habove own (List.mem_append_right _ List.mem_cons_self)
  · rintro (⟨⟨before, after, rfl, habove⟩, hlt⟩ | rfl)
    · refine ⟨before, after ++ [own], ?_, fun e he => ?_⟩
      · rw [List.append_assoc, List.cons_append]
      · rcases List.mem_append.mp he with hold | hlast
        · exact habove e hold
        · rw [List.mem_singleton.mp hlast]
          exact hlt
    · exact ⟨pushed, [], rfl, fun e he => absurd he List.not_mem_nil⟩

/-- If the nonces never go down, the last entry of every nonce stands. -/
theorem exists_stands_of_mem (hup : pushed.Pairwise fun a b => a.nonce ≤ b.nonce)
    (hc : c ∈ pushed) : ∃ e, e.nonce = c.nonce ∧ Stands pushed e := by
  induction pushed using List.reverseRecOn with
  | nil => exact absurd hc List.not_mem_nil
  | append_singleton before own ih =>
      rcases List.pairwise_append.mp hup with ⟨hbefore, _, hown⟩
      by_cases hnonce : own.nonce = c.nonce
      · exact ⟨own, hnonce, stands_concat.mpr (.inr rfl)⟩
      · rcases List.mem_append.mp hc with hold | hlast
        · -- The last entry lies above this nonce, so what stands at it still does.
          rcases ih hbefore hold with ⟨e, he, hstands⟩
          have hlt : c.nonce < own.nonce :=
            UInt64.lt_of_le_of_ne (hown c hold own List.mem_cons_self) (Ne.symm hnonce)
          exact ⟨e, he, stands_concat.mpr (.inl ⟨hstands, he ▸ hlt⟩)⟩
        · rw [List.mem_singleton.mp hlast] at hnonce
          exact absurd rfl hnonce

theorem reflects_genesis : genesis.Reflects [] := by
  intro c hlt
  refine ⟨fun hc => ?_, fun hstands => absurd hstands not_stands_nil⟩
  rw [List.mem_singleton.mp hc] at hlt
  exact absurd hlt (UInt64.lt_irrefl _)

theorem Reflects.prune (hf : h.Reflects pushed) : h.prune.Reflects pushed := by
  intro c hlt
  rw [← hf c hlt, History.prune, List.mem_filter, decide_eq_true_eq]
  exact and_iff_left (UInt64.le_of_lt hlt)

/-- Above the final checkpoint that it leads to, a commit does what a push does. -/
theorem Ordered.reflects_commit (ho : h.Ordered) (hown : h.final.nonce < own.nonce)
    (hlow : Low own.nonce) (has : ∀ a ∈ as, a.nonce < own.nonce) (hf : h.Reflects pushed) :
    (h.commit depth own as).Reflects (pushed ++ [own]) := by
  intro c hlt
  have hle := (yieldsTo_commit h depth own as).nonce_le
  rw [ho.mem_commit_iff_of_final_lt hown hlow has hlt, hf c (UInt64.lt_of_le_of_lt hle hlt),
    stands_concat]

end History

/-- The checkpoint of the header that an operation is about, if that is a processed one
    and is accepted. -/
def Entry.pushed? (e : Entry) : Option Checkpoint :=
  match e.event, e.answer with
  | .offer _ ⟨some header, some hash, .processed, _⟩, .accepted => some (header.checkpoint hash)
  | _, _ => none

/-- Whether an operation offers a header or checks for forks. -/
def Event.isWatch : Event → Bool
  | .offer _ _ => true
  | .check => true
  | _ => false

namespace Detector

/-- The checkpoints of the headers that are processed on a run, in their order. -/
def pushed (settings : Settings) (d : Detector) (events : List Event) : List Checkpoint :=
  (d.trace settings events).filterMap Entry.pushed?

/-- An entry of the history has the nonce and the hash of a header. -/
def Checkpointed (d : Detector) (x : Observation) : Prop :=
  ∃ c ∈ d.history.checkpoints, c.nonce = x.nonce ∧ c.hash = some x.hash

variable {settings : Settings} {d d' u : Detector} {event : Event} {events : List Event}
  {answer : Answer} {header : Header} {hash : HeaderHash} {ancestors : List Ancestor}
  {cs : List Checkpoint}

theorem pushed_concat (settings : Settings) (d : Detector) (events : List Event) (event : Event) :
    d.pushed settings (events ++ [event])
      = d.pushed settings events ++ (Entry.pushed? ⟨event,
          ((d.run settings events).step settings event).1,
          ((d.run settings events).step settings event).2⟩).toList := by
  unfold pushed
  rw [trace_append, List.filterMap_append, trace_cons, List.filterMap_cons]
  split
  · next hnone =>
    rw [hnone]
    rfl
  · next c hsome =>
    rw [hsome]
    rfl

theorem pushed?_of_accepted {env : Surroundings} {o : Offer} (hheader : o.header = some header)
    (hhash : o.hash = some hash) (d' : Detector) :
    Entry.pushed? ⟨.offer env o, .accepted, d'⟩
      = if o.provenance = .processed then some (header.checkpoint hash) else none := by
  rcases o with ⟨oheader, ohash, provenance, ancestors⟩
  cases hheader
  cases hhash
  cases provenance <;> rfl

/-- Nothing is pushed by an operation that accepts no header. -/
theorem reflects_of_ne_accepted (hanswer : answer ≠ .accepted) (event : Event)
    (hf : d'.history.Reflects cs) :
    d'.history.Reflects (cs ++ (Entry.pushed? ⟨event, answer, d'⟩).toList) := by
  have hnone : Entry.pushed? ⟨event, answer, d'⟩ = none := by
    unfold Entry.pushed?
    split
    · next haccepted => exact absurd haccepted hanswer
    · rfl
  rw [hnone, Option.toList_none, List.append_nil]
  exact hf

/-- A processed header that a run takes in is pushed on it. -/
theorem TakesIn.mem_pushed (h : u.TakesIn settings event header hash .processed ancestors)
    (hu : Visits settings d events u event) :
    header.checkpoint hash ∈ d.pushed settings events := by
  refine List.mem_filterMap.mpr ⟨_, hu.mem_trace, ?_⟩
  rcases h with ⟨⟨env, rfl⟩, haccepted⟩
  rw [haccepted, pushed?_of_accepted rfl rfl, if_pos rfl]

/-- An offer or a check leaves a history that reflects what it pushes as well. -/
theorem Effect.reflects (h : Effect settings d event answer d') (hs : d.Sound)
    (hwatch : event.isWatch = true) (hf : d.history.Reflects cs) :
    d'.history.Reflects (cs ++ (Entry.pushed? ⟨event, answer, d'⟩).toList) := by
  cases h with
  | accept env o header hash force hheader hhash hgate _ =>
      rw [pushed?_of_accepted hheader hhash, history_accept, history_takeIn]
      by_cases hprocessed : o.provenance = .processed
      · rcases hs.checkpoint_above hgate hash with ⟨hown, hlow⟩
        rw [if_pos hprocessed, if_pos hprocessed]
        exact (hs.history.toOrdered.reflects_commit hown hlow (fun a ha => (mem_window ha).2.2)
          hf).prune
      · rw [if_neg hprocessed, if_neg hprocessed, Option.toList_none, List.append_nil]
        exact hf.prune
  | idle _ _ hanswer => exact reflects_of_ne_accepted hanswer event hf
  | scan _ =>
      refine reflects_of_ne_accepted ?_ .check hf
      exact nofun
  | retreat _ _ =>
      refine reflects_of_ne_accepted ?_ event hf
      exact nofun
  | rollBack _ _ => exact absurd hwatch Bool.false_ne_true
  | clearForced => exact absurd hwatch Bool.false_ne_true
  | restart => exact absurd hwatch Bool.false_ne_true
  | settleAll => exact absurd hwatch Bool.false_ne_true

/-- On a run of offers and checks the history reflects the headers that are processed. -/
theorem Reaches.reflects (h : Reaches settings genesis events d)
    (hwatch : ∀ event ∈ events, event.isWatch = true) :
    d.history.Reflects (genesis.pushed settings events) := by
  refine h.tracked (P := fun events d => (∀ event ∈ events, event.isWatch = true) →
    d.history.Reflects (genesis.pushed settings events)) ?_ ?_ hwatch
  · exact fun _ => History.reflects_genesis
  · intro before u event hu hbefore hwatch
    have hreflects := hbefore fun e he => hwatch e (List.mem_append_left _ he)
    have hlast := hwatch event (List.mem_append_right _ List.mem_cons_self)
    rw [pushed_concat, ← hu.eq_run]
    exact (effect_step settings u event).reflects (hu.sound sound_genesis) hlast hreflects

/-- A processed header of the table was pushed at its nonce. -/
theorem Attested.exists_pushed (h : Attested settings events d) {x : Observation}
    (hx : x ∈ d.table.observations) (hprocessed : x.provenance = .processed) :
    ∃ c ∈ genesis.pushed settings events, c.nonce = x.nonce := by
  rcases h.source x hx with ⟨round, before, event, after, hsplit, hsupplies, _⟩
  generalize hsource : ({ x with round } : Observation) = source at hsupplies
  have hnonce : source.nonce = x.nonce := by rw [← hsource]
  have hprovenance : source.provenance = .processed := by rw [← hsource]; exact hprocessed
  cases hsupplies with
  | header htakes _ =>
      change _ = Provenance.processed at hprovenance
      subst hprovenance
      exact ⟨_, htakes.mem_pushed ⟨before, after, hsplit, rfl⟩, hnonce⟩
  | ancestor _ => exact absurd hprovenance nofun

/-- On a run of offers and checks a processed header above the final checkpoint has a
    checkpoint exactly if one of its nonce stands. -/
theorem Reaches.checkpointed_iff (h : Reaches settings genesis events d)
    (hwatch : ∀ event ∈ events, event.isWatch = true) {x : Observation}
    (hx : x ∈ d.table.observations) (hprocessed : x.provenance = .processed)
    (hlt : d.final.nonce < x.nonce) :
    d.Checkpointed x ↔
      ∃ c, c.nonce = x.nonce ∧ History.Stands (genesis.pushed settings events) c := by
  have hreflects := h.reflects hwatch
  constructor
  · rintro ⟨c, hc, hnonce, _⟩
    exact ⟨c, hnonce, (hreflects c (hnonce ▸ hlt)).mp hc⟩
  · rintro ⟨c, hnonce, hstands⟩
    -- The entry is backed by a processed header, and its nonce has no other.
    have hc := (hreflects c (hnonce ▸ hlt)).mpr hstands
    rcases h.backed sound_genesis backed_genesis c hc (hnonce ▸ hlt) with
      ⟨o, ho, hbacks, hhash⟩
    rw [hnonce] at ho
    have hrow := HeaderTable.mem_row.mpr ⟨hx, rfl⟩
    have htable := (h.sound sound_genesis).table.toConsistent
    rw [htable.eq_of_processed ho hrow hbacks hprocessed] at hhash
    exact ⟨c, hc, hnonce, hhash⟩

/-- Which processed headers of the table have a checkpoint, on a run of offers and checks
    from the first block on. One above the final checkpoint has it exactly if the last
    header processed at its nonce or below lies at its nonce. If the nonces of the
    processed headers never go down, all of them above the final checkpoint have one, and
    none in the table lies above the last checkpoint. -/
theorem processed_checkpointed_iff (h : Reaches settings genesis events d)
    (hwatch : ∀ event ∈ events, event.isWatch = true) :
    (∀ x ∈ d.table.observations, x.provenance = .processed → d.final.nonce < x.nonce →
      (d.Checkpointed x ↔
        ∃ c, c.nonce = x.nonce ∧ History.Stands (genesis.pushed settings events) c)) ∧
      ((genesis.pushed settings events).Pairwise (fun a b => a.nonce ≤ b.nonce) →
        ∀ x ∈ d.table.observations, x.provenance = .processed →
          x.nonce ≤ d.last.nonce ∧ (d.final.nonce < x.nonce → d.Checkpointed x)) := by
  have hs := h.sound sound_genesis
  have hattested : Attested settings events d :=
    h.tracked (attested_genesis settings []) fun _ _ event hu hbefore => hbefore.concat hu event
  refine ⟨fun x hx hprocessed hlt => h.checkpointed_iff hwatch hx hprocessed hlt,
    fun hup x hx hprocessed => ?_⟩
  have hentry : d.final.nonce < x.nonce → d.Checkpointed x := by
    intro hlt
    rcases hattested.exists_pushed hx hprocessed with ⟨c, hc, hnonce⟩
    rcases History.exists_stands_of_mem hup hc with ⟨e, he, hstands⟩
    exact (h.checkpointed_iff hwatch hx hprocessed hlt).mpr ⟨e, he.trans hnonce, hstands⟩
  refine ⟨?_, hentry⟩
  by_cases hlt : d.final.nonce < x.nonce
  · rcases hentry hlt with ⟨c, hc, hnonce, _⟩
    exact hnonce ▸ hs.history.ascending.le_last hc
  · exact UInt64.le_trans (UInt64.not_lt.mp hlt) hs.history.final_le_last

/-- A chain of two whose tip gives way to a competitor and is built upon. -/
def regrownTip : List Event :=
  [Sample.offer 1 1 1 .processed [], Sample.offer 2 2 2 .processed [],
    Sample.offer 2 5 20 .received [], .check, Sample.offer 2 5 20 .processed [],
    Sample.offer 3 6 3 .processed []]

/-- Its nonces never go down. The competitor is processed, and the history has it. -/
theorem processed_of_regrownTip :
    ∃ d, Reaches lagThree genesis regrownTip d ∧
      (∀ event ∈ regrownTip, event.isWatch = true) ∧
      (genesis.pushed lagThree regrownTip).map (·.nonce) = [1, 2, 2, 3] ∧ d.final.nonce < 2 ∧
      (⟨2, 5, Sample.hash 20, .processed⟩ : Observation) ∈ d.table.observations ∧
      (∃ c, c.nonce = 2 ∧ History.Stands (genesis.pushed lagThree regrownTip) c) ∧
      2 ≤ d.last.nonce ∧ d.Checkpointed ⟨2, 5, Sample.hash 20, .processed⟩ := by
  have h : Reaches lagThree genesis regrownTip (genesis.run lagThree regrownTip) :=
    reaches_iff.mpr ⟨by decide, rfl⟩
  have hwatch : ∀ event ∈ regrownTip, event.isWatch = true := by decide
  rcases processed_checkpointed_iff h hwatch with ⟨hiff, hup⟩
  have hmem : (⟨2, 5, Sample.hash 20, .processed⟩ : Observation) ∈
      (genesis.run lagThree regrownTip).table.observations := by decide
  rcases hup (by decide) _ hmem rfl with ⟨hlast, hentry⟩
  have hsecond := hentry (by decide)
  exact ⟨_, h, hwatch, by decide, by decide, hmem, (hiff _ hmem rfl (by decide)).mp hsecond, hlast,
    hsecond⟩

/-- A chain of two whose first block gives way to a competitor. -/
def shortenedBranch : List Event :=
  [Sample.offer 1 1 1 .processed [], Sample.offer 2 2 2 .processed [],
    Sample.offer 1 5 10 .processed []]

/-- The second block is left in the table as a processed header. It lies above the final
    checkpoint and above the last one, no checkpoint has its nonce, and it is what the tip
    is estimated at. -/
theorem second_left_of_shortenedBranch :
    ∃ d, Reaches lagThree genesis shortenedBranch d ∧
      (∀ event ∈ shortenedBranch, event.isWatch = true) ∧
      (⟨2, 2, Sample.hash 2, .processed⟩ : Observation) ∈ d.table.observations ∧
      d.final.nonce < 2 ∧ (∀ c ∈ d.history.checkpoints, c.nonce ≠ 2) ∧ d.last.nonce < 2 ∧
      d.tip = 2 :=
  ⟨_, reaches_iff.mpr ⟨by decide, rfl⟩, by decide, by decide, by decide, by decide, by decide,
    by decide⟩

end Detector

end HeaderChain

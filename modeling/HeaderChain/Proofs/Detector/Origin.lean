import HeaderChain.Proofs.Detector.Effect
import HeaderChain.Proofs.Detector.Run
import HeaderChain.Proofs.History.Rounds
import HeaderChain.Sample

/-!
# Where Things Come From

A detector invents nothing: whatever it keeps was offered to it.

What a table says of a header and what a checkpoint says of a block is put together
from several operations. A header that is offered again keeps the round of the first
time and takes the provenance of the last, and an ancestor comes with another header
and never by itself. Finality is copied from an entry of the history long after that
was made. So to say that what is kept is true means to find the offer it is from among
all that happened since everything was last forgotten, and for a header of the table
there are two of them to find. One has brought it with this nonce, this round and this
hash, the other with this nonce, this hash and this provenance.

The two are looked for in the same way, because both ways of speaking persist: an
observation either is added as it is, or it changes a provenance and nothing else. The
checkpoints are easier. No step of a commit makes one up, and what finality moves to is
among the entries.

The window of an ancestor is that of the moment in which it was listed. It lies above
the checkpoint that was final then, which may be far below the one that is final now.

## Main definitions

* `Detector.TakesIn`: An operation takes in a header.
* `Detector.Certifies`: A processed header takes an ancestor in with it.
* `Detector.Supplies`, `Detector.Confirms`: An operation is where an observation comes
  from, or a checkpoint.
* `Detector.Attested`: Whatever a detector keeps comes from an operation.

## Theorems

* `Detector.Effect.forall_mem`: What persists and holds of what is supplied is kept by
  every operation.
* `Detector.Effect.mark_cases`: A mark after an operation is an old one or confirmed.
* `Detector.Attested.concat`: One operation more keeps a detector attested.
* `Detector.nothing_invented`: Whatever is kept in a reachable state was offered.
-/

namespace HeaderChain

namespace Detector

/-- An operation is the offer of a header and its hash, and is accepted. -/
def TakesIn (settings : Settings) (d : Detector) (event : Event) (header : Header)
    (hash : HeaderHash) (provenance : Provenance) (ancestors : List Ancestor) : Prop :=
  (∃ env, event = .offer env ⟨some header, some hash, provenance, ancestors⟩) ∧
    (d.step settings event).1 = .accepted

/-- An operation takes in a processed header that lists an ancestor, which lies strictly
    between the final checkpoint of that moment and the header. -/
def Certifies (settings : Settings) (d : Detector) (event : Event) (a : Ancestor) : Prop :=
  ∃ header hash ancestors, d.TakesIn settings event header hash .processed ancestors ∧
    a ∈ ancestors ∧ d.final.nonce < a.nonce ∧ a.nonce < header.nonce

/-- An operation brings an observation: that of the header that it takes in, or that of
    an ancestor. -/
inductive Supplies (settings : Settings) : Observation → Detector → Event → Prop
  /-- It takes in a header of that nonce, round, hash and provenance, and not as a
      proposal, which is no observation. -/
  | header {d : Detector} {event : Event} {header : Header} {hash : HeaderHash}
      {provenance : Provenance} {ancestors : List Ancestor} :
      d.TakesIn settings event header hash provenance ancestors → provenance ≠ .proposed →
      Supplies settings ⟨header.nonce, header.round, hash, provenance⟩ d event
  /-- It certifies an ancestor, which counts as notarized. -/
  | ancestor {d : Detector} {event : Event} {a : Ancestor} :
      d.Certifies settings event a → Supplies settings a.observation d event

/-- An operation makes a checkpoint: that of the processed header that it takes in, or
    that of an ancestor. -/
inductive Confirms (settings : Settings) : Checkpoint → Detector → Event → Prop
  /-- It takes in a processed header of that nonce, round and hash. -/
  | header {d : Detector} {event : Event} {header : Header} {hash : HeaderHash}
      {ancestors : List Ancestor} :
      d.TakesIn settings event header hash .processed ancestors →
      Confirms settings (header.checkpoint hash) d event
  /-- It certifies an ancestor. -/
  | ancestor {d : Detector} {event : Event} {a : Ancestor} :
      d.Certifies settings event a → Confirms settings a.checkpoint d event

/-- Whatever a detector keeps after a run from the first block on comes from an operation
    since the last restart. -/
structure Attested (settings : Settings) (events : List Event) (d : Detector) : Prop where
  /-- The place and the hash of a header were supplied together. -/
  place : ∀ o ∈ d.table.observations, ∃ provenance,
    Since settings genesis (· = .restart) (Supplies settings { o with provenance }) events
  /-- So were its nonce, its hash and its provenance. -/
  source : ∀ o ∈ d.table.observations, ∃ round,
    Since settings genesis (· = .restart) (Supplies settings { o with round }) events
  /-- A checkpoint is that of the first block or was confirmed. -/
  marks : ∀ c ∈ d.history.marks,
    c = .genesis ∨ Since settings genesis (· = .restart) (Confirms settings c) events

variable {settings : Settings} {d d' : Detector} {event : Event} {events : List Event}

theorem attested_genesis (settings : Settings) (events : List Event) :
    Attested settings events genesis where
  place _ ho := absurd ho List.not_mem_nil
  source _ ho := absurd ho List.not_mem_nil
  marks c hc := by
    have hall : ∀ c ∈ genesis.history.marks, c = Checkpoint.genesis := by decide
    exact .inl (hall c hc)

theorem takesIn_of_accepted {env : Surroundings} {o : Offer} {header : Header} {hash : HeaderHash}
    (hheader : o.header = some header) (hhash : o.hash = some hash)
    (haccepted : (d.step settings (.offer env o)).1 = .accepted) :
    d.TakesIn settings (.offer env o) header hash o.provenance o.ancestors := by
  rcases o with ⟨oheader, ohash, provenance, ancestors⟩
  cases hheader
  cases hhash
  exact ⟨⟨env, rfl⟩, haccepted⟩

/-- What is in the window of a processed header is certified by taking it in. -/
theorem TakesIn.certifies {header : Header} {hash : HeaderHash} {provenance : Provenance}
    {ancestors : List Ancestor} {a : Ancestor}
    (h : d.TakesIn settings event header hash provenance ancestors)
    (hprocessed : provenance = .processed) (ha : a ∈ d.window header ancestors) :
    d.Certifies settings event a := by
  subst hprocessed
  exact ⟨header, hash, ancestors, h, mem_window ha⟩

/-- What persists is kept by every operation, if it holds of whatever that supplies. -/
theorem Effect.forall_mem {Q : Observation → Prop} {answer : Answer}
    (h : Effect settings d event answer d') (hanswer : (d.step settings event).1 = answer)
    (hQ : HeaderTable.Persists Q) (hseen : ∀ o ∈ d.table.observations, Q o)
    (hsupplied : ∀ o, Supplies settings o d event → Q o) : ∀ o ∈ d'.table.observations, Q o := by
  intro o ho
  cases h with
  | accept env _ header hash force hheader hhash _ _ =>
      have htakes := takesIn_of_accepted hheader hhash hanswer
      exact forall_mem_takeIn hQ hseen (fun hproposed => hsupplied _ (.header htakes hproposed))
        (fun hprocessed _ ha => hsupplied _ (.ancestor (htakes.certifies hprocessed ha))) o
        (HeaderTable.mem_tidy.mp ho).1
  | idle _ _ _ => exact hseen o ho
  | rollBack _ _ => exact hseen o (HeaderTable.mem_of_mem_keep ho)
  | scan _ => exact hseen o (HeaderTable.mem_of_mem_keep ho)
  | retreat _ _ => exact hseen o ho
  | clearForced => exact hseen o ho
  | restart => exact absurd ho List.not_mem_nil
  | settleAll => exact hseen o (HeaderTable.mem_tidy.mp ho).1

/-- Unless everything is forgotten, a mark after an operation is an old one or confirmed
    by it. -/
theorem Effect.mark_cases {answer : Answer} {c : Checkpoint}
    (h : Effect settings d event answer d') (hanswer : (d.step settings event).1 = answer)
    (hrestart : event ≠ .restart) (hc : c ∈ d'.history.marks) :
    c ∈ d.history.marks ∨ Confirms settings c d event := by
  cases h with
  | accept env o header hash force hheader hhash _ _ =>
      have htakes := takesIn_of_accepted hheader hhash hanswer
      -- Pruning adds nothing, and a commit adds what comes with the header.
      have hc' := History.marks_filter _ _ hc
      rw [history_takeIn] at hc'
      split at hc'
      · next hprocessed =>
        rcases List.mem_append.mp (History.marks_commit _ _ _ _ hc') with hnew | hrest
        · rcases List.mem_map.mp hnew with ⟨a, ha, rfl⟩
          exact .inr (.ancestor (htakes.certifies hprocessed ha))
        · rcases List.mem_cons.mp hrest with rfl | hold
          · rw [hprocessed] at htakes
            exact .inr (.header htakes)
          · exact .inl hold
      · exact .inl hc'
  | idle _ _ _ => exact .inl hc
  | rollBack _ _ => exact .inl (History.marks_filter _ _ hc)
  | scan _ => exact .inl hc
  | retreat _ _ => exact .inl hc
  | clearForced => exact .inl hc
  | restart => exact absurd rfl hrestart
  | settleAll =>
      -- Finality is copied from the last checkpoint, which is a mark.
      exact .inl (History.marks_settleAll _ (History.marks_filter _ _ hc))

/-- One operation more keeps a detector attested. -/
theorem Attested.concat (h : Attested settings events d) (hd : Reaches settings genesis events d)
    (event : Event) : Attested settings (events ++ [event]) (d.step settings event).2 := by
  by_cases hrestart : event = .restart
  · rw [hrestart]
    exact attested_genesis settings _
  · have heffect := effect_step settings d event
    -- What was attested before still is, and what is supplied now is from now on.
    have hearlier : ∀ {happens : Detector → Event → Prop},
        Since settings genesis (· = .restart) happens events →
          Since settings genesis (· = .restart) happens (events ++ [event]) :=
      fun hsince => since_concat.mpr (.inr ⟨hsince, hrestart⟩)
    have hnow : ∀ {happens : Detector → Event → Prop}, happens d event →
        Since settings genesis (· = .restart) happens (events ++ [event]) :=
      fun hhappens => since_concat.mpr (.inl (hd.eq_run ▸ hhappens))
    constructor
    · -- An upgrade keeps the place, so any earlier offer of it will do.
      refine heffect.forall_mem rfl (HeaderTable.persists_place fun nonce round hash =>
        ∃ provenance, Since settings genesis (· = .restart)
          (Supplies settings ⟨nonce, round, hash, provenance⟩) (events ++ [event]))
        (fun o ho => ?_) fun o ho => ⟨o.provenance, hnow ho⟩
      rcases h.place o ho with ⟨provenance, hsince⟩
      exact ⟨provenance, hearlier hsince⟩
    · -- It takes the provenance from the offer that caused it.
      refine heffect.forall_mem rfl (HeaderTable.persists_source fun nonce hash provenance =>
        ∃ round, Since settings genesis (· = .restart)
          (Supplies settings ⟨nonce, round, hash, provenance⟩) (events ++ [event]))
        (fun o ho => ?_) fun o ho => ⟨o.round, hnow ho⟩
      rcases h.source o ho with ⟨round, hsince⟩
      exact ⟨round, hearlier hsince⟩
    · intro c hc
      rcases heffect.mark_cases rfl hrestart hc with hold | hconfirmed
      · exact (h.marks c hold).imp_right hearlier
      · exact .inr (hnow hconfirmed)

/-- Nothing is invented. In any reachable state every header of the table was brought
    with its nonce, its round and its hash, and with its nonce, its hash and its
    provenance, by operations since the last restart: by the offer of a header that was
    accepted and is not a proposal, or, notarized, by that of a processed header which
    listed it as an ancestor above the checkpoint that was final then and below itself.
    The final checkpoint and the entries of the history are that of the first block, or
    in all their parts those of such a processed header or such an ancestor. -/
theorem nothing_invented (h : Reaches settings genesis events d) :
    (∀ o ∈ d.table.observations,
      (∃ provenance, Since settings genesis (· = .restart)
        (Supplies settings ⟨o.nonce, o.round, o.hash, provenance⟩) events) ∧
      ∃ round, Since settings genesis (· = .restart)
        (Supplies settings ⟨o.nonce, round, o.hash, o.provenance⟩) events) ∧
      ∀ c, c = d.final ∨ c ∈ d.history.checkpoints →
        c = .genesis ∨ Since settings genesis (· = .restart) (Confirms settings c) events := by
  have hattested : Attested settings events d :=
    h.tracked (attested_genesis settings []) fun _ _ event hu hbefore => hbefore.concat hu event
  exact ⟨fun o ho => ⟨hattested.place o ho, hattested.source o ho⟩,
    fun c hc => hattested.marks c (List.mem_cons.mpr hc)⟩

/-- Before a restart a header is processed, and after it a header is received in one round
    and processed in another, where it comes with an ancestor. -/
def offeredAgain : List Event :=
  [Sample.offer 4 4 4 .processed [], .restart, Sample.offer 3 9 3 .received [],
    Sample.offer 1 1 1 .processed [], Sample.offer 3 10 3 .processed [⟨2, 7, Sample.hash 20⟩]]

/-- The table has the header in the round of the first offer and with the provenance of
    the second, and the history has it in the round of the second. -/
theorem origins_of_offeredAgain :
    ∃ d, Reaches .standard genesis offeredAgain d ∧
      d.table.observations
        = [⟨2, 7, Sample.hash 20, .notarized⟩, ⟨3, 9, Sample.hash 3, .processed⟩] ∧
      d.history.checkpoints = [⟨2, 7, some (Sample.hash 20)⟩, ⟨3, 10, some (Sample.hash 3)⟩] ∧
      (∃ provenance, Since .standard genesis (· = .restart)
        (Supplies .standard ⟨3, 9, Sample.hash 3, provenance⟩) offeredAgain) ∧
      (∃ round, Since .standard genesis (· = .restart)
        (Supplies .standard ⟨3, round, Sample.hash 3, .processed⟩) offeredAgain) ∧
      d.final = ⟨2, 7, some (Sample.hash 20)⟩ ∧
      Since .standard genesis (· = .restart)
        (Confirms .standard ⟨2, 7, some (Sample.hash 20)⟩) offeredAgain ∧
      Since .standard genesis (· = .restart)
        (Confirms .standard ⟨3, 10, some (Sample.hash 3)⟩) offeredAgain := by
  have h : Reaches .standard genesis offeredAgain (genesis.run .standard offeredAgain) :=
    reaches_iff.mpr ⟨by decide, rfl⟩
  rcases nothing_invented h with ⟨htable, hmarks⟩
  have hthird := htable ⟨3, 9, Sample.hash 3, .processed⟩ (by decide)
  have hfinal := hmarks ⟨2, 7, some (Sample.hash 20)⟩ (.inl (by decide))
  have hlast := hmarks ⟨3, 10, some (Sample.hash 3)⟩ (.inr (by decide))
  exact ⟨_, h, by decide, by decide, hthird.1, hthird.2, by decide,
    hfinal.resolve_left (by decide), hlast.resolve_left (by decide)⟩

end Detector

end HeaderChain

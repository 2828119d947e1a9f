import HeaderChain.Detector.Gates

/-!
# Operations of a Fork Detector

What is done to a detector, and what it answers.

A header that does not pass the gates changes nothing. Of those that do,
only a processed one, with the certified ancestors that come with it, makes
checkpoints; the depth rule is applied first and the ancestors are taken in
afterwards. A proposed header is an intent and not an observation, so it
never enters the table; but when nothing could be committed for too long, it
is the moment to declare a fork.

Whether this is a check round is asked only when everything else speaks for
acting in it, and before anything is changed.

## Main definitions

* `Detector.offer`: Takes a header in or says why not.
* `Detector.check`: Checks for forks.
* `Detector.rollBack`, `Detector.retreat`, `Detector.settleAll`: The other
  operations.
* `Event`, `Answer`, `Detector.step`: The operations as one function.
-/

namespace HeaderChain

/-- Why an offer changes nothing. -/
inductive Refusal
  /-- The header does not pass the gates. -/
  | rejected (rejection : Rejection)
  /-- There is no telling whether this is a check round. -/
  | faulted (fault : RemainderFault)
  deriving DecidableEq

namespace Detector

/-- Whether the tip leads the last checkpoint by more than a synchronised
    node's does. -/
def isSyncing (settings : Settings) (d : Detector) : Bool :=
  settings.syncedLead.toInt < distance d.tip d.last.nonce

/-- Whether a proposed header finds the node ready to propose the next block
    but without a commit for too long. -/
def isStuck (settings : Settings) (d : Detector) (header : Header) : Bool :=
  !d.isSyncing settings &&
    decide (settings.maxRoundsUncommitted.toInt < distance header.round d.last.round) &&
    decide (distance header.nonce d.last.nonce ≤ 1)

/-- Whether a header makes the node declare a fork. The round is looked at
    only when everything else is in place. -/
def forces (settings : Settings) (env : Surroundings) (d : Detector) (header : Header)
    (provenance : Provenance) : Except RemainderFault Bool :=
  if provenance = .proposed ∧ d.isStuck settings header then settings.isCheckRound env.round
  else .ok false

/-- Notes a header: a proposed one by its nonce, any other in the table. -/
def note (d : Detector) (header : Header) (hash : HeaderHash) (provenance : Provenance) :
    Detector :=
  if provenance = .proposed then { d with lastProposed := header.nonce }
  else { d with table := d.table.observe ⟨header.nonce, header.round, hash, provenance⟩ }

/-- The ancestors that lie between the final checkpoint and a header. -/
def window (d : Detector) (header : Header) (ancestors : List Ancestor) : List Ancestor :=
  ancestors.filter fun a => d.final.nonce < a.nonce && a.nonce < header.nonce

/-- Takes in a certified ancestor's observation. -/
def noteAncestor (t : HeaderTable) (a : Ancestor) : HeaderTable :=
  t.observe a.observation

/-- Makes the checkpoints of a processed header: its own, the one at the
    final depth, and those of the ancestors between. -/
def commit (settings : Settings) (d : Detector) (header : Header) (hash : HeaderHash)
    (ancestors : List Ancestor) : Detector :=
  let between := d.window header ancestors
  let own : Checkpoint := ⟨header.nonce, header.round, some hash⟩
  { d with
    table := between.foldl noteAncestor d.table
    history := between.foldl (fun h a => h.certify a.checkpoint)
      ((d.history.push own).settle settings.finalDepth)
    lastBlockRound := header.round }

/-- Drops what the final checkpoint has made pointless. -/
def tidy (d : Detector) : Detector :=
  { d with
    table := (d.table.dropBelow d.final.nonce).dropPremature d.final
    history := d.history.prune }

/-- The estimate of the tip: the highest nonce that is final, was about to
    be proposed on, or is in the table. -/
def tipEstimate (d : Detector) : UInt64 :=
  let proposedOn := if 0 < d.lastProposed then d.lastProposed - 1 else 0
  max (max d.final.nonce proposedOn) (d.table.highest?.getD 0)

/-- Estimates the tip anew. -/
def estimateTip (d : Detector) : Detector :=
  { d with tip := d.tipEstimate }

/-- Takes in a header that has passed the gates, before anything is tidied
    up. -/
def takeIn (settings : Settings) (d : Detector) (force : Bool) (header : Header)
    (hash : HeaderHash) (provenance : Provenance) (ancestors : List Ancestor) : Detector :=
  let d := { d with forced := d.forced || force }
  let d := d.note header hash provenance
  if provenance.isProcessed then d.commit settings header hash ancestors else d

/-- Takes in a header that has passed the gates. -/
def accept (settings : Settings) (d : Detector) (force : Bool) (header : Header)
    (hash : HeaderHash) (provenance : Provenance) (ancestors : List Ancestor) : Detector :=
  (d.takeIn settings force header hash provenance ancestors).tidy.estimateTip

/-- Takes a header in, or says why not. -/
def offer (settings : Settings) (env : Surroundings) (d : Detector) (o : Offer) :
    Except Refusal Detector :=
  match o.header, o.hash with
  | none, _ => .error (.rejected .noHeader)
  | some _, none => .error (.rejected .noHash)
  | some header, some hash =>
    match d.gateFault? settings env header o.provenance with
    | some rejection => .error (.rejected rejection)
    | none =>
      match d.forces settings env header o.provenance with
      | .error fault => .error (.faulted fault)
      | .ok force => .ok (d.accept settings force header hash o.provenance o.ancestors)

/-- Rolls back a header: drops its checkpoint, itself and the received
    headers of its nonce. -/
def rollBack (d : Detector) (nonce : UInt64) (hash : HeaderHash) : Detector :=
  { d with history := d.history.forget nonce, table := d.table.retract nonce hash }

/-- Checks for forks. A declared fork is reported without looking at the
    table. -/
def check (d : Detector) : Verdict × Detector :=
  if d.forced then (.forced, d)
  else
    let (verdict, table) := d.table.scan
    (verdict, { d with table })

/-- Puts the tip and the last proposed nonce back to the last checkpoint. -/
def retreat (d : Detector) : Detector :=
  { d with tip := d.last.nonce, lastProposed := d.last.nonce }

/-- Retreats if no header was processed for too many rounds, and this is a
    check round. -/
def retreatIfIdle (settings : Settings) (round : Int64) (d : Detector) :
    Except RemainderFault Detector :=
  if settings.maxRoundsIdle.toInt < round.toInt - signed d.lastBlockRound then
    (settings.isCheckRound round).map fun fires => if fires then d.retreat else d
  else .ok d

/-- Withdraws a declared fork. -/
def clearForced (d : Detector) : Detector :=
  { d with forced := false }

/-- Makes the last checkpoint final. -/
def settleAll (d : Detector) : Detector :=
  { d with history := d.history.settleAll }.tidy

end Detector

/-- One of the operations on a detector. -/
inductive Event
  /-- A header is offered. -/
  | offer (env : Surroundings) (o : Offer)
  /-- A header is rolled back. -/
  | rollBack (nonce : UInt64) (hash : HeaderHash)
  /-- Forks are checked for. -/
  | check
  /-- The tip is put back if the node has been idle. -/
  | retreatIfIdle (round : Int64)
  /-- The tip is put back. -/
  | retreat
  /-- A declared fork is withdrawn. -/
  | clearForced
  /-- Everything is forgotten. -/
  | restart
  /-- The last checkpoint is made final. -/
  | settleAll

/-- What an operation answers. -/
inductive Answer
  /-- It is done. -/
  | done
  /-- The header is taken in. -/
  | accepted
  /-- The header does not pass the gates. -/
  | rejected (rejection : Rejection)
  /-- There is no telling whether this is a check round. -/
  | faulted (fault : RemainderFault)
  /-- What a check for forks finds. -/
  | verdict (v : Verdict)
  deriving DecidableEq

namespace Detector

/-- The effect of an operation. One that fails changes nothing. -/
def step (settings : Settings) (d : Detector) : Event → Answer × Detector
  | .offer env o =>
    match d.offer settings env o with
    | .ok d => (.accepted, d)
    | .error (.rejected rejection) => (.rejected rejection, d)
    | .error (.faulted fault) => (.faulted fault, d)
  | .rollBack nonce hash => (.done, d.rollBack nonce hash)
  | .check =>
    let (v, d) := d.check
    (.verdict v, d)
  | .retreatIfIdle round =>
    match d.retreatIfIdle settings round with
    | .ok d => (.done, d)
    | .error fault => (.faulted fault, d)
  | .retreat => (.done, d.retreat)
  | .clearForced => (.done, d.clearForced)
  | .restart => (.done, genesis)
  | .settleAll => (.done, d.settleAll)

end Detector

end HeaderChain

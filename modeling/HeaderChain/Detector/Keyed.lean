import HeaderChain.Detector.Operations
import HeaderChain.HeaderTable.Keyed

/-!
# Keyed Fork Detectors

A fork detector as a node runs it, with the rows of its table under their
nonces.

The operations are those of a `Detector`, in the same steps and with the same
answers, on a `KeyedTable` in place of a `HeaderTable`. The gates, the window of
ancestors and what makes a proposal declare a fork depend on the checkpoints, the
tip and the rounds alone, so these are asked of the detector without its table.

## Main definitions

* `KeyedDetector`: The state of the watch.
* `KeyedDetector.bare`: The detector without its table.
* `KeyedDetector.offer`, `KeyedDetector.check`, `KeyedDetector.rollBack`: The
  operations that look at the table.
* `KeyedDetector.step`, `KeyedDetector.run`: The operations as one function, and
  the state after a sequence of them.
-/

namespace HeaderChain

/-- The state of the watch over a chain, with a table of rows. -/
structure KeyedDetector where
  /-- The headers seen. -/
  table : KeyedTable
  /-- The checkpoints. -/
  history : History
  /-- The estimate of the highest nonce of the chain. -/
  tip : UInt64
  /-- The round of the header processed last. -/
  lastBlockRound : UInt64
  /-- The nonce of the header proposed last. -/
  lastProposed : UInt64
  /-- Whether the node has declared a fork. -/
  forced : Bool
  deriving DecidableEq

namespace KeyedDetector

/-- A watch that starts with the chain. -/
def genesis : KeyedDetector :=
  { table := .empty, history := .genesis, tip := 0, lastBlockRound := 0, lastProposed := 0
    forced := false }

/-- The detector without its table. -/
def bare (k : KeyedDetector) : Detector :=
  { table := .empty, history := k.history, tip := k.tip, lastBlockRound := k.lastBlockRound
    lastProposed := k.lastProposed, forced := k.forced }

/-- The final checkpoint. -/
def final (k : KeyedDetector) : Checkpoint :=
  k.history.final

/-- The last checkpoint. -/
def last (k : KeyedDetector) : Checkpoint :=
  k.history.last

/-- Notes a header: a proposed one by its nonce, any other in the table. -/
def note (k : KeyedDetector) (header : Header) (hash : HeaderHash) (provenance : Provenance) :
    KeyedDetector :=
  if provenance = .proposed then { k with lastProposed := header.nonce }
  else { k with table := k.table.observe ⟨header.nonce, header.round, hash, provenance⟩ }

/-- Takes in a certified ancestor's observation. -/
def noteAncestor (t : KeyedTable) (a : Ancestor) : KeyedTable :=
  t.observe a.observation

/-- Makes the checkpoints of a processed header: its own, the one at the
    final depth, and those of the ancestors between. -/
def commit (settings : Settings) (k : KeyedDetector) (header : Header) (hash : HeaderHash)
    (ancestors : List Ancestor) : KeyedDetector :=
  let between := k.bare.window header ancestors
  let own : Checkpoint := ⟨header.nonce, header.round, some hash⟩
  { k with
    table := between.foldl noteAncestor k.table
    history := between.foldl (fun h a => h.certify a.checkpoint)
      ((k.history.push own).settle settings.finalDepth)
    lastBlockRound := header.round }

/-- Drops what the final checkpoint has made pointless. -/
def tidy (k : KeyedDetector) : KeyedDetector :=
  { k with
    table := (k.table.dropBelow k.final.nonce).dropPremature k.final
    history := k.history.prune }

/-- Estimates the tip anew: the highest nonce that is final, was about to be
    proposed on, or has a row. -/
def estimateTip (k : KeyedDetector) : KeyedDetector :=
  let proposedOn := if 0 < k.lastProposed then k.lastProposed - 1 else 0
  { k with tip := max (max k.final.nonce proposedOn) (k.table.highest?.getD 0) }

/-- Takes in a header that has passed the gates, before anything is tidied
    up. -/
def takeIn (settings : Settings) (k : KeyedDetector) (force : Bool) (header : Header)
    (hash : HeaderHash) (provenance : Provenance) (ancestors : List Ancestor) : KeyedDetector :=
  let k := { k with forced := k.forced || force }
  let k := k.note header hash provenance
  if provenance.isProcessed then k.commit settings header hash ancestors else k

/-- Takes in a header that has passed the gates. -/
def accept (settings : Settings) (k : KeyedDetector) (force : Bool) (header : Header)
    (hash : HeaderHash) (provenance : Provenance) (ancestors : List Ancestor) : KeyedDetector :=
  (k.takeIn settings force header hash provenance ancestors).tidy.estimateTip

/-- Takes a header in, or says why not. -/
def offer (settings : Settings) (env : Surroundings) (k : KeyedDetector) (o : Offer) :
    Except Refusal KeyedDetector :=
  match o.header, o.hash with
  | none, _ => .error (.rejected .noHeader)
  | some _, none => .error (.rejected .noHash)
  | some header, some hash =>
    match k.bare.gateFault? settings env header o.provenance with
    | some rejection => .error (.rejected rejection)
    | none =>
      match k.bare.forces settings env header o.provenance with
      | .error fault => .error (.faulted fault)
      | .ok force => .ok (k.accept settings force header hash o.provenance o.ancestors)

/-- Rolls back a header: drops its checkpoint, itself and the received
    headers of its nonce. -/
def rollBack (k : KeyedDetector) (nonce : UInt64) (hash : HeaderHash) : KeyedDetector :=
  { k with history := k.history.forget nonce, table := k.table.retract nonce hash }

/-- Checks for forks. A declared fork is reported without looking at the
    table. -/
def check (k : KeyedDetector) : Verdict × KeyedDetector :=
  if k.forced then (.forced, k)
  else
    let (verdict, table) := k.table.scan
    (verdict, { k with table })

/-- Puts the tip and the last proposed nonce back to the last checkpoint. -/
def retreat (k : KeyedDetector) : KeyedDetector :=
  { k with tip := k.last.nonce, lastProposed := k.last.nonce }

/-- Retreats if no header was processed for too many rounds, and this is a
    check round. -/
def retreatIfIdle (settings : Settings) (round : Int64) (k : KeyedDetector) :
    Except RemainderFault KeyedDetector :=
  if settings.maxRoundsIdle.toInt < round.toInt - signed k.lastBlockRound then
    (settings.isCheckRound round).map fun fires => if fires then k.retreat else k
  else .ok k

/-- Withdraws a declared fork. -/
def clearForced (k : KeyedDetector) : KeyedDetector :=
  { k with forced := false }

/-- Makes the last checkpoint final. -/
def settleAll (k : KeyedDetector) : KeyedDetector :=
  { k with history := k.history.settleAll }.tidy

/-- The effect of an operation. One that fails changes nothing. -/
def step (settings : Settings) (k : KeyedDetector) : Event → Answer × KeyedDetector
  | .offer env o =>
    match k.offer settings env o with
    | .ok k => (.accepted, k)
    | .error (.rejected rejection) => (.rejected rejection, k)
    | .error (.faulted fault) => (.faulted fault, k)
  | .rollBack nonce hash => (.done, k.rollBack nonce hash)
  | .check =>
    let (v, k) := k.check
    (.verdict v, k)
  | .retreatIfIdle round =>
    match k.retreatIfIdle settings round with
    | .ok k => (.done, k)
    | .error fault => (.faulted fault, k)
  | .retreat => (.done, k.retreat)
  | .clearForced => (.done, k.clearForced)
  | .restart => (.done, genesis)
  | .settleAll => (.done, k.settleAll)

/-- The state after a sequence of operations. -/
def run (settings : Settings) (k : KeyedDetector) (events : List Event) : KeyedDetector :=
  events.foldl (fun k event => (k.step settings event).2) k

end KeyedDetector

end HeaderChain

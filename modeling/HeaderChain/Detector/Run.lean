import HeaderChain.Detector.Operations

/-!
# Runs of a Fork Detector

What a detector goes through over a sequence of operations.

A run is a sequence of operations, each with its answer and the state that
it leads to. Statements about a single state of a run look at where the run
ends, and statements about two states, or about what was answered on the
way, look at the whole trace.

Signed arithmetic on nonces and rounds is exact here. A machine computes it
in words, so a run is `InRange` only as long as every difference that an
operation computes fits one. Which differences those are depends on how far
the operation gets, and `differences` lists them.

## Main definitions

* `Detector.run`: The state after a sequence of operations.
* `Detector.trace`: The operations with their answers and the states after
  them.
* `Detector.differences`: The signed numbers that an operation computes.
* `Detector.InRange`: All of them fit a signed word.
* `Detector.Reaches`: A run whose operations are all in range.
-/

namespace HeaderChain

/-- An operation of a run, with its answer and the state after it. -/
structure Entry where
  /-- The operation. -/
  event : Event
  /-- What it answers. -/
  answer : Answer
  /-- The state after it. -/
  after : Detector

namespace Detector

/-- The state after a sequence of operations. -/
def run (settings : Settings) (d : Detector) (events : List Event) : Detector :=
  events.foldl (fun d event => (d.step settings event).2) d

/-- A sequence of operations with their answers and the states after them. -/
def trace (settings : Settings) : Detector → List Event → List Entry
  | _, [] => []
  | d, event :: rest =>
    let (answer, after) := d.step settings event
    ⟨event, answer, after⟩ :: trace settings after rest

/-- The differences computed to find received headers whose nonce has run
    ahead of the rounds. -/
def tidyDifferences (d : Detector) : List Int :=
  ((d.table.dropBelow d.final.nonce).observations.filter (·.provenance == .received)).flatMap
    fun o => [distance o.round d.final.round, distance o.nonce d.final.nonce]

/-- The numbers computed at the gates. The limit of age is not computed for
    what is processed, nor after an earlier gate. -/
def gateDifferences (settings : Settings) (env : Surroundings) (d : Detector) (header : Header)
    (provenance : Provenance) : List Int :=
  [distance header.round d.final.round, distance header.nonce d.final.nonce,
    env.round.toInt + 1] ++
  if provenance.isProcessed ∨
      ((d.placeFault? env.round header).or (originFault? env header provenance)).isSome then []
  else [env.round.toInt - settings.blockFinality.toInt]

/-- The differences computed to find out whether a proposed header makes the
    node declare a fork. -/
def forceDifferences (settings : Settings) (d : Detector) (header : Header)
    (provenance : Provenance) : List Int :=
  if provenance = .proposed then
    distance d.tip d.last.nonce ::
      if d.isSyncing settings then []
      else [distance header.round d.last.round, distance header.nonce d.last.nonce]
  else []

/-- The numbers computed while a header is offered. -/
def offerDifferences (settings : Settings) (env : Surroundings) (d : Detector) (o : Offer) :
    List Int :=
  match o.header, o.hash with
  | some header, some hash =>
    d.gateDifferences settings env header o.provenance ++
      match d.gateFault? settings env header o.provenance with
      | some _ => []
      | none =>
        d.forceDifferences settings header o.provenance ++
          match d.forces settings env header o.provenance with
          | .error _ => []
          | .ok force =>
            (d.takeIn settings force header hash o.provenance o.ancestors).tidyDifferences
  | _, _ => []

/-- The signed numbers that an operation computes. -/
def differences (settings : Settings) (d : Detector) : Event → List Int
  | .offer env o => d.offerDifferences settings env o
  | .retreatIfIdle round => [round.toInt - signed d.lastBlockRound]
  | .settleAll => { d with history := d.history.settleAll }.tidyDifferences
  | _ => []

/-- Whether every signed number that an operation computes fits a word. -/
def InRange (settings : Settings) (d : Detector) (event : Event) : Prop :=
  ∀ n ∈ d.differences settings event, Fits n

/-- A run from one state to another, all of whose operations are in
    range. -/
inductive Reaches (settings : Settings) : Detector → List Event → Detector → Prop
  /-- Nothing is done. -/
  | refl (d : Detector) : Reaches settings d [] d
  /-- An operation is followed by a run. -/
  | step (d : Detector) (event : Event) (events : List Event) (d' : Detector) :
      d.InRange settings event → Reaches settings (d.step settings event).2 events d' →
      Reaches settings d (event :: events) d'

/-- A run ends where its operations lead. -/
theorem Reaches.eq_run {settings : Settings} {d d' : Detector} {events : List Event}
    (h : Reaches settings d events d') : d' = d.run settings events := by
  induction h with
  | refl d => rfl
  | step d event events d' _ _ ih => exact ih

/-- Runs follow on one another. -/
theorem Reaches.append {settings : Settings} {d d' d'' : Detector} {events events' : List Event}
    (h : Reaches settings d events d') (h' : Reaches settings d' events' d'') :
    Reaches settings d (events ++ events') d'' := by
  induction h with
  | refl d => exact h'
  | step d event events d' hr _ ih => exact .step d event _ d'' hr (ih h')

/-- A run over two sequences of operations is a run over the second from
    where the first leads. -/
theorem run_append (settings : Settings) (d : Detector) (events events' : List Event) :
    d.run settings (events ++ events') = (d.run settings events).run settings events' := by
  simp only [run, List.foldl_append]

end Detector

end HeaderChain

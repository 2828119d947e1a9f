import HeaderChain.Checkpoint
import HeaderChain.ForkChoice
import HeaderChain.Signed

/-!
# Header Table

Every header that the node keeps an eye on.

The table is one list of observations, by ascending nonce and, within a
nonce, in the order of their arrival. That order is part of the type, so
two tables that agree at every nonce are equal. The row of a nonce is what
the list holds of it; operations on the table are filters and maps, and
what they do to a row is read off directly. A node keeps the rows apart, each
under its nonce, and that table is a `KeyedTable`.

A check for forks looks at every row that holds a header processed by the
node. If the candidate among the others forks it, the row is kept, and the
lowest such nonce is reported. Otherwise the others have lost for good and
are dropped.

## Main definitions

* `HeaderTable`: The table.
* `HeaderTable.row`, `HeaderTable.nonces`: What it holds.
* `HeaderTable.observe`: Takes in an observation.
* `HeaderTable.dropBelow`, `HeaderTable.dropPremature`: Tidying up.
* `HeaderTable.retract`: Rolls back a header.
* `HeaderTable.scan`: Checks for forks.
-/

namespace HeaderChain

/-- Observations by ascending nonce, and by arrival within a nonce. -/
@[ext]
structure HeaderTable where
  /-- The observations. -/
  observations : List Observation
  /-- Their nonces ascend. -/
  ascending : observations.Pairwise fun a b => a.nonce ≤ b.nonce
  deriving DecidableEq

namespace HeaderTable

/-- The table of a node that has seen nothing. -/
def empty : HeaderTable :=
  ⟨[], .nil⟩

/-- What the table holds of a nonce, in the order of arrival. -/
def row (t : HeaderTable) (nonce : UInt64) : List Observation :=
  t.observations.filter (·.nonce == nonce)

/-- The nonces of which the table holds anything, ascending. -/
def nonces (t : HeaderTable) : List UInt64 :=
  (t.observations.map (·.nonce)).eraseDups

/-- The highest nonce of which the table holds anything. -/
def highest? (t : HeaderTable) : Option UInt64 :=
  t.observations.getLast?.map (·.nonce)

/-- Whether the table holds nothing. -/
def isEmpty (t : HeaderTable) : Bool :=
  t.observations.isEmpty

/-- The hash of the first notarized header of a nonce. -/
def notarized? (t : HeaderTable) (nonce : UInt64) : Option HeaderHash :=
  ((t.row nonce).find? (·.provenance == .notarized)).map (·.hash)

/-- Keeps the observations that pass a test. -/
def keep (t : HeaderTable) (test : Observation → Bool) : HeaderTable :=
  ⟨t.observations.filter test, t.ascending.filter test⟩

/-- Puts an observation behind those of its nonce. -/
def place (o : Observation) : List Observation → List Observation
  | [] => [o]
  | p :: rest => if p.nonce ≤ o.nonce then p :: place o rest else o :: p :: rest

/-- What is in a list after an observation was put into its place. -/
theorem mem_place {o p : Observation} {os : List Observation} :
    p ∈ place o os ↔ p = o ∨ p ∈ os := by
  induction os with
  | nil => simp [place]
  | cons q rest ih =>
    unfold place
    split
    · simp only [List.mem_cons, ih]
      exact or_left_comm
    · simp only [List.mem_cons]

/-- Putting an observation into its place keeps nonces ascending. -/
theorem pairwise_place {o : Observation} {os : List Observation}
    (h : os.Pairwise fun a b => a.nonce ≤ b.nonce) :
    (place o os).Pairwise fun a b => a.nonce ≤ b.nonce := by
  induction os with
  | nil => simp [place]
  | cons p rest ih =>
    unfold place
    have hp := List.pairwise_cons.mp h
    split
    · next hle =>
      refine List.pairwise_cons.mpr ⟨fun q hq => ?_, ih hp.2⟩
      rcases mem_place.mp hq with rfl | hq
      · exact hle
      · exact hp.1 q hq
    · next hlt =>
      have hop : o.nonce ≤ p.nonce := UInt64.le_of_lt (UInt64.not_le.mp hlt)
      refine List.pairwise_cons.mpr ⟨fun q hq => ?_, h⟩
      rcases List.mem_cons.mp hq with rfl | hq
      · exact hop
      · exact UInt64.le_trans hop (hp.1 q hq)

/-- Adds an observation of a header that the table does not hold. -/
def add (t : HeaderTable) (o : Observation) : HeaderTable :=
  ⟨place o t.observations, pairwise_place t.ascending⟩

/-- Whether two observations are of the same header. -/
def sameHeader (a b : Observation) : Bool :=
  a.nonce == b.nonce && a.hash == b.hash

/-- Gives a header that the table holds a new provenance. -/
def upgrade (t : HeaderTable) (o : Observation) : HeaderTable :=
  ⟨t.observations.map fun p =>
      if sameHeader p o then { p with provenance := o.provenance } else p, by
    refine List.pairwise_map.mpr (t.ascending.imp fun {a b} h => ?_)
    split <;> split <;> exact h⟩

/-- Makes room for an observation. A header that the node has processed
    takes the place of any other it had processed at that nonce. -/
def makeRoom (t : HeaderTable) (o : Observation) : HeaderTable :=
  if o.provenance.isProcessed then
    t.keep fun p => !(p.nonce == o.nonce && p.provenance.isProcessed) || p.hash == o.hash
  else t

/-- Takes in an observation. Of a header that the table holds, only the
    provenance is raised. -/
def observe (t : HeaderTable) (o : Observation) : HeaderTable :=
  match (t.row o.nonce).find? (·.hash == o.hash) with
  | none => (t.makeRoom o).add o
  | some known =>
    if o.provenance.supersedes known.provenance then (t.makeRoom o).upgrade o else t

/-- Drops what lies below a nonce. -/
def dropBelow (t : HeaderTable) (nonce : UInt64) : HeaderTable :=
  t.keep (nonce ≤ ·.nonce)

/-- Whether the nonce of an observation has run ahead of the rounds elapsed
    since a checkpoint. -/
def isPremature (final : Checkpoint) (o : Observation) : Bool :=
  distance o.round final.round < distance o.nonce final.nonce

/-- Drops the received headers whose nonce has run ahead of the rounds. -/
def dropPremature (t : HeaderTable) (final : Checkpoint) : HeaderTable :=
  t.keep fun o => !(o.provenance == .received && isPremature final o)

/-- Rolls back a header: drops it and every received header of its nonce. -/
def retract (t : HeaderTable) (nonce : UInt64) (hash : HeaderHash) : HeaderTable :=
  t.keep fun o => o.nonce != nonce || (o.hash != hash && o.provenance != .received)

/-- The header of a row that the node has processed. -/
def own? (row : List Observation) : Option Observation :=
  row.reverse.find? (·.provenance.isProcessed)

/-- The candidate among the headers of a row that the node has not
    processed. -/
def rival? (row : List Observation) : Option Candidate :=
  leading? (row.filter fun o => !o.provenance.isProcessed)

/-- The candidate that forks a row, if the row is forked. -/
def fork? (row : List Observation) : Option Candidate :=
  match own? row with
  | none => none
  | some own => if signals own (rival? row) then rival? row else none

/-- Whether an observation outlives a check of its row: the row is forked,
    or has no header that the node has processed, or this is that header. -/
def survives (row : List Observation) (o : Observation) : Bool :=
  match own? row with
  | none => true
  | some own => signals own (rival? row) || o == own

/-- The lowest nonce whose row is forked, with the candidate that forks
    it. -/
def firstFork? (t : HeaderTable) : Option (UInt64 × Candidate) :=
  t.nonces.findSome? fun nonce => (fork? (t.row nonce)).map fun candidate => (nonce, candidate)

/-- Checks for forks, and drops what has lost. -/
def scan (t : HeaderTable) : Verdict × HeaderTable :=
  (match t.firstFork? with
    | none => .clear
    | some (nonce, candidate) => .forked nonce candidate,
   t.keep fun o => survives (t.row o.nonce) o)

end HeaderTable

end HeaderChain

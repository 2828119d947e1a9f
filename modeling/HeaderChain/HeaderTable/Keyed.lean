import HeaderChain.HeaderTable

/-!
# Keyed Header Tables

The table of observations as a map from nonces to rows.

This is how a node keeps its table: a row for each nonce of which it holds anything, and
the nonces in ascending order. Only that order is part of the type. Nothing about the type
keeps a row from being empty, or an observation from standing under a nonce that is not its
own, so it is for the operations to see to that. Observing makes a row where there is none.
Tidying up and rolling back take a row out that they have left empty, and a check for forks
leaves at least the node's own header of a row.

`HeaderTable` keeps the same observations in one list, where a row is what the list holds
of a nonce.

## Main definitions

* `KeyedTable`: The table.
* `KeyedTable.get?`, `KeyedTable.row`: The row of a nonce.
* `KeyedTable.alter`, `KeyedTable.mapRows`: Changing one row, or all of them.
* `KeyedTable.observe`: Takes in an observation.
* `KeyedTable.dropBelow`, `KeyedTable.dropPremature`: Tidying up.
* `KeyedTable.retract`: Rolls back a header.
* `KeyedTable.scan`: Checks for forks.
-/

namespace HeaderChain

/-- Rows by ascending nonce. -/
@[ext]
structure KeyedTable where
  /-- The rows, each under its nonce. -/
  rows : List (UInt64 × List Observation)
  /-- The nonces ascend, and none has two rows. -/
  ascending : rows.Pairwise fun a b => a.1 < b.1
  deriving DecidableEq

namespace KeyedTable

/-- The table of a node that has seen nothing. -/
def empty : KeyedTable :=
  ⟨[], .nil⟩

/-- The row that stands under a nonce. -/
def get? (t : KeyedTable) (nonce : UInt64) : Option (List Observation) :=
  t.rows.lookup nonce

/-- What the table holds of a nonce. -/
def row (t : KeyedTable) (nonce : UInt64) : List Observation :=
  (t.get? nonce).getD []

/-- The nonces that have a row, ascending. -/
def nonces (t : KeyedTable) : List UInt64 :=
  t.rows.map (·.1)

/-- The highest nonce that has a row. -/
def highest? (t : KeyedTable) : Option UInt64 :=
  t.rows.getLast?.map (·.1)

/-- Whether there are no rows. -/
def isEmpty (t : KeyedTable) : Bool :=
  t.rows.isEmpty

/-- The hash of the first notarized header of a nonce. -/
def notarized? (t : KeyedTable) (nonce : UInt64) : Option HeaderHash :=
  ((t.row nonce).find? (·.provenance == .notarized)).map (·.hash)

/-- Puts a row in front of others, if there is one. -/
def inFront (nonce : UInt64) (rest : List (UInt64 × List Observation)) :
    Option (List Observation) → List (UInt64 × List Observation)
  | none => rest
  | some row => (nonce, row) :: rest

/-- Changes the row of a nonce. Both the row that there is and the one that is to be may be
    missing. -/
def alterIn (nonce : UInt64) (f : Option (List Observation) → Option (List Observation)) :
    List (UInt64 × List Observation) → List (UInt64 × List Observation)
  | [] => inFront nonce [] (f none)
  | e :: rest =>
    if e.1 < nonce then e :: alterIn nonce f rest
    else if e.1 = nonce then inFront nonce rest (f (some e.2))
    else inFront nonce (e :: rest) (f none)

variable {nonce : UInt64} {rows : List (UInt64 × List Observation)}
  {f : Option (List Observation) → Option (List Observation)}

theorem mem_of_mem_inFront {e : UInt64 × List Observation} {row? : Option (List Observation)}
    (h : e ∈ inFront nonce rows row?) : e.1 = nonce ∨ e ∈ rows := by
  cases row? with
  | none => exact .inr h
  | some row => exact (List.mem_cons.mp h).imp_left (congrArg Prod.fst)

/-- A row in front of higher nonces keeps the nonces ascending. -/
theorem pairwise_inFront (h : rows.Pairwise fun a b => a.1 < b.1) (hlt : ∀ e ∈ rows, nonce < e.1)
    (row? : Option (List Observation)) :
    (inFront nonce rows row?).Pairwise fun a b => a.1 < b.1 := by
  cases row? with
  | none => exact h
  | some row => exact List.pairwise_cons.mpr ⟨hlt, h⟩

/-- Where the first of ascending nonces is higher, all of them are. -/
theorem lt_of_head {e : UInt64 × List Observation}
    (h : (e :: rows).Pairwise fun a b => a.1 < b.1) (hge : ¬ e.1 < nonce) (hne : e.1 ≠ nonce) :
    ∀ p ∈ e :: rows, nonce < p.1 := by
  have hlt : nonce < e.1 := UInt64.lt_of_le_of_ne (UInt64.not_lt.mp hge) hne.symm
  intro p hp
  rcases List.mem_cons.mp hp with rfl | hp
  · exact hlt
  · exact UInt64.lt_trans hlt ((List.pairwise_cons.mp h).1 p hp)

/-- A changed row stands under its nonce, and the others stay where they are. -/
theorem mem_of_mem_alterIn {e : UInt64 × List Observation} (h : e ∈ alterIn nonce f rows) :
    e.1 = nonce ∨ e ∈ rows := by
  induction rows with
  | nil => exact mem_of_mem_inFront h
  | cons p rest ih =>
    unfold alterIn at h
    split at h
    · rcases List.mem_cons.mp h with rfl | h
      · exact .inr List.mem_cons_self
      · exact (ih h).imp_right (List.mem_cons_of_mem p)
    · split at h
      · exact (mem_of_mem_inFront h).imp_right (List.mem_cons_of_mem p)
      · exact mem_of_mem_inFront h

/-- Changing a row keeps the nonces ascending. -/
theorem pairwise_alterIn (h : rows.Pairwise fun a b => a.1 < b.1) :
    (alterIn nonce f rows).Pairwise fun a b => a.1 < b.1 := by
  induction rows with
  | nil => exact pairwise_inFront .nil (fun e he => absurd he List.not_mem_nil) (f none)
  | cons p rest ih =>
    have hp := List.pairwise_cons.mp h
    unfold alterIn
    split
    · next hlt =>
      refine List.pairwise_cons.mpr ⟨fun e he => ?_, ih hp.2⟩
      rcases mem_of_mem_alterIn he with hnonce | he
      · exact hnonce ▸ hlt
      · exact hp.1 e he
    · next hge =>
      split
      · next heq => exact pairwise_inFront hp.2 (fun e he => heq ▸ hp.1 e he) _
      · next hne => exact pairwise_inFront h (lt_of_head h hge hne) _

/-- Changes the row of a nonce. -/
def alter (t : KeyedTable) (nonce : UInt64)
    (f : Option (List Observation) → Option (List Observation)) : KeyedTable :=
  ⟨alterIn nonce f t.rows, pairwise_alterIn t.ascending⟩

/-- Changes all rows, and takes out those that are no more. -/
def mapRows (t : KeyedTable) (f : UInt64 → List Observation → Option (List Observation)) :
    KeyedTable :=
  ⟨t.rows.filterMap fun e => (f e.1 e.2).map (e.1, ·), by
    refine List.pairwise_filterMap.mpr (t.ascending.imp fun {a b} hab c hc d hd => ?_)
    rcases Option.map_eq_some_iff.mp hc with ⟨_, _, rfl⟩
    rcases Option.map_eq_some_iff.mp hd with ⟨_, _, rfl⟩
    exact hab⟩

/-- A row, unless nothing is left of it. -/
def unlessEmpty (row : List Observation) : Option (List Observation) :=
  if row.isEmpty then none else some row

/-- Gives the header of an observation its provenance if it stands in a row, and puts the
    observation at the end otherwise. -/
def upsert (o : Observation) : List Observation → List Observation
  | [] => [o]
  | p :: rest =>
    if p.hash == o.hash then { p with provenance := o.provenance } :: rest
    else p :: upsert o rest

/-- A row after an observation of its nonce. What is known of a header is only ever
    superseded, and a processed header takes the place of any other. -/
def appended (row : List Observation) (o : Observation) : List Observation :=
  if (row.find? (·.hash == o.hash)).any fun known => !o.provenance.supersedes known.provenance then
    row
  else
    upsert o (if o.provenance.isProcessed then
      row.filter fun p => !p.provenance.isProcessed || p.hash == o.hash
    else row)

/-- Takes in an observation, in a row of its own if there is none. -/
def observe (t : KeyedTable) (o : Observation) : KeyedTable :=
  t.alter o.nonce fun row? => some (appended (row?.getD []) o)

/-- Drops what lies below a nonce. -/
def dropBelow (t : KeyedTable) (nonce : UInt64) : KeyedTable :=
  t.mapRows fun n row => if nonce ≤ n then some row else none

/-- Drops the received headers whose nonce has run ahead of the rounds, and the rows that
    this leaves empty. -/
def dropPremature (t : KeyedTable) (final : Checkpoint) : KeyedTable :=
  t.mapRows fun _ row => unlessEmpty (row.filter fun o =>
    !(o.provenance == .received && HeaderTable.isPremature final o))

/-- Rolls back a header: drops it and every received header of its nonce, and the row if
    this leaves it empty. -/
def retract (t : KeyedTable) (nonce : UInt64) (hash : HeaderHash) : KeyedTable :=
  t.alter nonce fun row? => row?.bind fun row =>
    unlessEmpty (row.filter fun o => o.hash != hash && o.provenance != .received)

/-- What is found of a row with one more header: the header that the node has processed,
    and the candidate among the others. -/
def look (found : Option Observation × Option Candidate) (o : Observation) :
    Option Observation × Option Candidate :=
  if o.provenance.isProcessed then (some o, found.2)
  else (found.1, some (Candidate.better found.2 o))

/-- Goes through a row. -/
def inspect (row : List Observation) : Option Observation × Option Candidate :=
  row.foldl look (none, none)

/-- The candidate that forks a row, if the row is forked, and what is left of the row. With
    fewer than two headers there is nothing to compare. -/
def judge (row : List Observation) : Option Candidate × List Observation :=
  if row.length < 2 then (none, row)
  else match inspect row with
    | (none, _) => (none, row)
    | (some own, rival) => if signals own rival then (rival, row) else (none, [own])

/-- The verdict after one more row. The first fork found stays. -/
def report (verdict : Verdict) (nonce : UInt64) : Option Candidate → Verdict
  | none => verdict
  | some candidate => if verdict.isFork then verdict else .forked nonce candidate

/-- Checks for forks from the lowest nonce on, and drops what has lost. -/
def scan (t : KeyedTable) : Verdict × KeyedTable :=
  (t.rows.foldl (fun verdict e => report verdict e.1 (judge e.2).1) .clear,
    t.mapRows fun _ row => some (judge row).2)

end KeyedTable

end HeaderChain

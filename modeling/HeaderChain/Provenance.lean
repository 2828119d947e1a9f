/-!
# Provenance

Where the node learnt about a header, and so how far it trusts it.

The sources are ordered by authority. What is known of a header is only
ever replaced by something of more authority, and what the node has
processed itself is never replaced.

## Main definitions

* `Provenance`: The four sources.
* `Provenance.authority`: Their order.
* `Provenance.supersedes`: One may replace another.
-/

namespace HeaderChain

/-- Where the node learnt about a header. -/
inductive Provenance
  /-- Assembled by this node as the leader of a round. -/
  | proposed
  /-- Received from a peer. -/
  | received
  /-- Certified by a parent chain or shard. -/
  | notarized
  /-- Executed and committed by this node. -/
  | processed
  deriving DecidableEq

namespace Provenance

/-- The place of a source in the order of authority. -/
def authority : Provenance → Nat
  | .proposed => 0
  | .received => 1
  | .notarized => 2
  | .processed => 3

instance : LT Provenance :=
  ⟨fun a b => a.authority < b.authority⟩

instance : DecidableLT Provenance :=
  fun a b => inferInstanceAs (Decidable (a.authority < b.authority))

instance : LE Provenance :=
  ⟨fun a b => a.authority ≤ b.authority⟩

instance : DecidableLE Provenance :=
  fun a b => inferInstanceAs (Decidable (a.authority ≤ b.authority))

instance : Ord Provenance :=
  ⟨fun a b => compare a.authority b.authority⟩

/-- Whether the node has processed the header itself. -/
def isProcessed : Provenance → Bool
  | .processed => true
  | _ => false

/-- Whether a header learnt from `a` may replace what was learnt of it from
    `b`. -/
def supersedes (a b : Provenance) : Bool :=
  !b.isProcessed && decide (b < a)

/-- The word for a source. -/
def word : Provenance → String
  | .proposed => "proposed"
  | .received => "received"
  | .notarized => "notarized"
  | .processed => "processed"

/-- The name of a source. -/
def name : Provenance → String
  | .proposed => "Proposed"
  | .received => "Received"
  | .notarized => "Notarized"
  | .processed => "Processed"

end Provenance

end HeaderChain

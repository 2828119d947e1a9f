import HeaderChain.Detector.State
import HeaderChain.Rejection
import HeaderChain.Settings

/-!
# Gates of a Fork Detector

Which headers a detector takes in.

Every header passes three gates in order. The gate of place compares it with
the final checkpoint and the current round, the gate of origin asks for what
its provenance requires, and the gate of age turns away what the node has
not processed in time. The first gate that a header does not pass gives the
reason.

## Main definitions

* `Detector.placeFault?`, `Detector.originFault?`, `Detector.ageFault?`: The
  three gates.
* `Detector.gateFault?`: The first gate that a header does not pass.
-/

namespace HeaderChain

namespace Detector

/-- The gate of place: the header lies above the final checkpoint, not
    beyond the next round, and has not gained more nonces than rounds. -/
def placeFault? (d : Detector) (round : Int64) (header : Header) : Option Rejection :=
  let rounds := distance header.round d.final.round
  let nonces := distance header.nonce d.final.nonce
  if rounds < 0 then some (.roundTooLow header.round (signed d.final.round))
  else if nonces ≤ 0 then some (.nonceTooLow header.nonce d.final.nonce)
  else if round.toInt + 1 < signed header.round then
    some (.roundTooHigh header.round (round.toInt + 1))
  else if rounds < nonces then some (.nonceTooHigh rounds nonces)
  else none

/-- The gate of origin: a proposed header needs a predecessor that is not
    blacklisted and a valid seed, a received or processed one a
    signature. -/
def originFault? (env : Surroundings) (header : Header) : Provenance → Option Rejection
  | .proposed =>
    if env.blacklisted header.prevHash then some (.blacklisted header.prevHash)
    else if !env.acceptsSeed header then some .badSeed
    else none
  | .notarized => none
  | _ => if !header.isSigned then some .notSigned else none

/-- The gate of age: a header that the node has not processed must not be
    too long past. -/
def ageFault? (settings : Settings) (round : Int64) (header : Header) :
    Provenance → Option Rejection
  | .processed => none
  | _ =>
    let limit := round.toInt - settings.blockFinality.toInt
    if signed header.round < limit then some (.roundTooLow header.round limit) else none

/-- The first gate that a header does not pass. -/
def gateFault? (settings : Settings) (env : Surroundings) (d : Detector) (header : Header)
    (provenance : Provenance) : Option Rejection :=
  (d.placeFault? env.round header).or
    ((originFault? env header provenance).or (ageFault? settings env.round header provenance))

end Detector

end HeaderChain

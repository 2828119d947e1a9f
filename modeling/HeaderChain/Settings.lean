import HeaderChain.ConfigValue

/-!
# Settings

The windows of rounds and nonces that a detector works with.

Settings are read from a configuration, where a missing or unusable value
takes its default. What they do not allow is a modulus that is not positive
or a depth that is negative. Settings made in another way may have such a
modulus, and then asking for a check round can fail like a division does.

## Main definitions

* `Settings`, `Settings.standard`: The settings and their defaults.
* `Settings.effective`: The value of one setting.
* `Settings.ofConfiguration`: The settings of a configuration.
* `Settings.isCheckRound`: Periodic checks may fire in a round.
-/

namespace HeaderChain

/-- What a detector works with. -/
structure Settings where
  /-- How many rounds a header that the node has not processed stays of
      interest. -/
  blockFinality : Int64
  /-- How far the final checkpoint stays behind the last one. -/
  finalDepth : UInt64
  /-- After how many rounds without a processed block the tip is put back to
      the last checkpoint. -/
  maxRoundsIdle : Int64
  /-- After how many rounds without a committed block a node that could
      propose declares a fork. -/
  maxRoundsUncommitted : Int64
  /-- The lead of the tip over the last checkpoint above which the node is
      synchronising. -/
  syncedLead : Int64
  /-- Periodic checks fire in the rounds that this divides. -/
  checkModulus : Int64
  deriving DecidableEq

/-- Why settings are refused. -/
inductive SettingsFault
  /-- The modulus is not positive. -/
  | modulusNotPositive (modulus : Int64)
  /-- The depth is negative. -/
  | depthNegative (depth : Int64)
  deriving DecidableEq

/-- The wording of a refusal. -/
def SettingsFault.message : SettingsFault → String
  | .modulusNotPositive modulus =>
    "round-modulus-trigger must be positive, got " ++ Decimal.ofInt modulus.toInt
  | .depthNegative depth =>
    "final-checkpoint-depth must not be negative, got " ++ Decimal.ofInt depth.toInt

/-- Why there is no remainder. -/
inductive RemainderFault
  /-- The divisor is zero. -/
  | zeroDivisor
  /-- The quotient does not fit the words. -/
  | overflow
  deriving DecidableEq

/-- The wording of a missing remainder. -/
def RemainderFault.message : RemainderFault → String
  | .zeroDivisor => "attempt to calculate the remainder with a divisor of zero"
  | .overflow => "attempt to calculate the remainder with overflow"

namespace Settings

/-- The default settings. -/
def standard : Settings :=
  { blockFinality := 1
    finalDepth := 1
    maxRoundsIdle := 2
    maxRoundsUncommitted := 10
    syncedLead := 0
    checkModulus := 5 }

/-- The value of a setting: what the configuration has for it, or the
    default if it has nothing that stands for an integer. -/
def effective (config : Configuration) (name : String) (default : Int64) : Int64 :=
  ((config.lookup name).bind ConfigValue.toInt64?).getD default

/-- The settings of a configuration. The modulus is judged first. -/
def ofConfiguration (config : Configuration) : Except SettingsFault Settings :=
  let modulus := effective config "round-modulus-trigger" 5
  let depth := effective config "final-checkpoint-depth" 1
  if modulus ≤ 0 then .error (.modulusNotPositive modulus)
  else if depth < 0 then .error (.depthNegative depth)
  else .ok
    { blockFinality := effective config "block-finality" 1
      finalDepth := depth.toUInt64
      maxRoundsIdle := effective config "max-rounds-without-received-block" 2
      maxRoundsUncommitted := effective config "max-rounds-without-committed-block" 10
      syncedLead := effective config "nonce-difference-when-synced" 0
      checkModulus := modulus }

/-- Whether the remainder of two words does not exist, and why. The only
    quotient beyond the words is that of the least word by minus one. -/
def remainderFault? (n modulus : Int64) : Option RemainderFault :=
  if modulus = 0 then some .zeroDivisor
  else if n = Int64.minValue ∧ modulus = -1 then some .overflow
  else none

/-- Whether periodic checks may fire in a round. -/
def isCheckRound (s : Settings) (round : Int64) : Except RemainderFault Bool :=
  match remainderFault? round s.checkModulus with
  | some fault => .error fault
  | none => .ok (decide (round.toInt.tmod s.checkModulus.toInt = 0))

end Settings

end HeaderChain

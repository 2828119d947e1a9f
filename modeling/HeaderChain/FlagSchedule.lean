import HeaderChain.ConfigValue

/-!
# Flag Schedules

The epochs from which features are active.

A feature is active from its activation epoch on, and never if it is not
listed. A schedule is read from a table of the configuration, all or
nothing: if one entry stands for no epoch, no feature is scheduled.

## Main definitions

* `FlagSchedule`: Activation epochs by feature.
* `FlagSchedule.isActive`: A feature is active in an epoch.
* `FlagSchedule.ofConfiguration`: The schedule of a configuration.
* `quorumProofs`: The feature that makes proofs for predecessors due.
-/

namespace HeaderChain

/-- Activation epochs by feature. -/
structure FlagSchedule where
  /-- The features with their epochs. -/
  entries : List (String × UInt32)
  /-- Each feature is listed once. -/
  distinct : (entries.map (·.1)).Nodup
  deriving DecidableEq

/-- The feature from whose activation on headers carry a proof for their
    predecessor. -/
def quorumProofs : String :=
  "equivalent-proofs"

namespace FlagSchedule

/-- The schedule without any feature. -/
def empty : FlagSchedule :=
  ⟨[], .nil⟩

/-- The epoch from which a feature is active. -/
def activation? (s : FlagSchedule) (flag : String) : Option UInt32 :=
  s.entries.lookup flag

/-- Schedules a feature, in place of what was scheduled for it. -/
def schedule (s : FlagSchedule) (flag : String) (epoch : UInt32) : FlagSchedule :=
  ⟨(flag, epoch) :: s.entries.filter (·.1 != flag), by
    refine List.nodup_cons.mpr ⟨fun hmem => ?_, s.distinct.sublist (List.filter_sublist.map _)⟩
    rcases List.mem_map.mp hmem with ⟨e, he, hflag⟩
    exact bne_iff_ne.mp (List.mem_filter.mp he).2 hflag⟩

/-- Whether a feature is active in an epoch. -/
def isActive (s : FlagSchedule) (flag : String) (epoch : UInt32) : Bool :=
  match s.activation? flag with
  | none => false
  | some activation => activation ≤ epoch

/-- The name of the table that schedules are read from. -/
def tableName : String :=
  "enable-epochs"

/-- The schedule of a table, unless an entry stands for no epoch. -/
def ofTable? : List (String × ConfigValue) → Option FlagSchedule
  | [] => some empty
  | (flag, value) :: rest => do
    let epoch ← value.toUInt32?
    let s ← ofTable? rest
    return s.schedule flag epoch

/-- The schedule of a configuration. -/
def ofConfiguration (config : Configuration) : FlagSchedule :=
  match config.lookup tableName with
  | some (.table entries) => (ofTable? entries).getD empty
  | _ => empty

end FlagSchedule

end HeaderChain

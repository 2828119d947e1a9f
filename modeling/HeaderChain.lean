import HeaderChain.Json.Printer
import HeaderChain.Json.Codec
import HeaderChain.Succession
import HeaderChain.Detector.Run
import HeaderChain.HeaderTable.Rows
import HeaderChain.HeaderTable.Forked
import HeaderChain.Detector.Keyed
import HeaderChain.Sample
import HeaderChain.Proofs.Signed
import HeaderChain.Proofs.Text.Decimal
import HeaderChain.Proofs.Text.Hex
import HeaderChain.Proofs.Json.Text
import HeaderChain.Proofs.Json.Parser
import HeaderChain.Proofs.Json.Record
import HeaderChain.Proofs.Json.Codec
import HeaderChain.Proofs.Succession
import HeaderChain.Proofs.Cbor.Takes
import HeaderChain.Proofs.Cbor.Header
import HeaderChain.Proofs.Ancestry
import HeaderChain.Proofs.Cascade
import HeaderChain.Proofs.Text.HashForm
import HeaderChain.Proofs.DirectSuccession
import HeaderChain.Proofs.ForkChoice
import HeaderChain.Proofs.Provenance
import HeaderChain.Proofs.Convergence
import HeaderChain.Proofs.History.Ascending
import HeaderChain.Proofs.History.Sound
import HeaderChain.Proofs.History.Commit
import HeaderChain.Proofs.History.Rounds
import HeaderChain.Proofs.History.Lineage
import HeaderChain.Proofs.History.Recommit
import HeaderChain.Proofs.History.Permuted
import HeaderChain.Proofs.HeaderTable.Sound
import HeaderChain.Proofs.HeaderTable.Scan
import HeaderChain.Proofs.HeaderTable.Observe
import HeaderChain.Proofs.HeaderTable.Arrival
import HeaderChain.Proofs.HeaderTable.Polling
import HeaderChain.Proofs.HeaderTable.Processed
import HeaderChain.Proofs.HeaderTable.Strength
import HeaderChain.Proofs.HeaderTable.Keyed
import HeaderChain.Proofs.ValidChain
import HeaderChain.Proofs.Detector.Run
import HeaderChain.Proofs.Detector.Effect
import HeaderChain.Proofs.Detector.Sound
import HeaderChain.Proofs.Detector.Keyed
import HeaderChain.Proofs.Detector.Finality
import HeaderChain.Proofs.Detector.Certified
import HeaderChain.Proofs.Detector.Rounds
import HeaderChain.Proofs.Detector.Backing
import HeaderChain.Proofs.Detector.Check
import HeaderChain.Proofs.Detector.Influence
import HeaderChain.Proofs.Detector.Tip
import HeaderChain.Proofs.Detector.Chain
import HeaderChain.Proofs.Detector.Inflation
import HeaderChain.Proofs.Detector.Proposals
import HeaderChain.Proofs.Detector.Processed
import HeaderChain.Proofs.Detector.Forced
import HeaderChain.Proofs.Detector.Resolution
import HeaderChain.Proofs.Detector.Unwinding
import HeaderChain.Proofs.Detector.Origin
import HeaderChain.Proofs.Detector.Branch
import HeaderChain.Proofs.Detector.Intake
import HeaderChain.Proofs.Detector.Admission
import HeaderChain.Proofs.Detector.Redelivery
import HeaderChain.Proofs.Detector.Permuted
import HeaderChain.Proofs.Detector.DepthRule
import HeaderChain.Proofs.Settings
import HeaderChain.Proofs.ConfigValue
import HeaderChain.Proofs.Configuration
import HeaderChain.Proofs.Detector.Configured

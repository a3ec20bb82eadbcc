import PackedTable.Buffer.Lemmas
import PackedTable.Event
import PackedTable.Header.Codec
import PackedTable.Plain.Hasher
import PackedTable.Plan
import PackedTable.Table.Map
import PackedTable.Table.Text
import PackedTable.Proofs.Probe.Coverage
import PackedTable.Proofs.Search
import PackedTable.Proofs.Placement
import PackedTable.Proofs.Invariant
import PackedTable.Proofs.Likeness
import PackedTable.Proofs.Session
import PackedTable.Proofs.Outcomes
import PackedTable.Proofs.Checked
import PackedTable.Proofs.Operations
import PackedTable.Proofs.Reachability
import PackedTable.Proofs.Representation
import PackedTable.Proofs.Capacity
import PackedTable.Proofs.FiniteMap
import PackedTable.Proofs.Copy
import PackedTable.Proofs.Transfer
import PackedTable.Proofs.HeaderCodec
import PackedTable.Proofs.HeaderFormat
import PackedTable.Proofs.Restoration
import PackedTable.Proofs.Containment
import PackedTable.Proofs.SizeControl
import PackedTable.Proofs.Accessors
import PackedTable.Proofs.Steps
import PackedTable.Proofs.Footprint
import PackedTable.Proofs.Effects
import PackedTable.Proofs.Indistinguishable
import PackedTable.Proofs.Equality
import PackedTable.Proofs.Abandonment
import PackedTable.Proofs.FullScan
import PackedTable.Proofs.Refusal
import PackedTable.Proofs.Landing
import PackedTable.Proofs.Stability
import PackedTable.Proofs.Walk
import PackedTable.Proofs.Iteration
import PackedTable.Proofs.Filtering
import PackedTable.Proofs.Overcount
import PackedTable.Proofs.History
import PackedTable.Proofs.HeaderLength
import PackedTable.Proofs.Fitting
import PackedTable.Proofs.Holding
import PackedTable.Proofs.Streaming
import PackedTable.Proofs.Cutoff
import PackedTable.Proofs.Probe.Permutation
import PackedTable.Proofs.Addressing
import PackedTable.Proofs.FactorValue
import PackedTable.Proofs.Ceiling

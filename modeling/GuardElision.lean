import GuardElision.Check
import GuardElision.Cost.Oracle
import GuardElision.Cost.Ranking
import GuardElision.Count
import GuardElision.Decimal.Binary
import GuardElision.Decimal.Layout
import GuardElision.Decimal.Shortest
import GuardElision.Exchange.Check
import GuardElision.Exchange.Classifier
import GuardElision.Exchange.Program
import GuardElision.Exchange.Report
import GuardElision.Exchange.Settings
import GuardElision.Files.Failure
import GuardElision.Files.Path
import GuardElision.Files.Text
import GuardElision.Files.Tree
import GuardElision.Flow.Dominance
import GuardElision.Flow.Graph
import GuardElision.Fold
import GuardElision.Json.Basic
import GuardElision.Json.Decode
import GuardElision.Json.Escape
import GuardElision.Json.Numeral
import GuardElision.Json.Printer
import GuardElision.Json.Reader
import GuardElision.Match.Location
import GuardElision.Match.Session
import GuardElision.Match.Shape
import GuardElision.Ordered.Map
import GuardElision.Ordered.Ranked
import GuardElision.Program.Basic
import GuardElision.Program.Builder
import GuardElision.Program.Identifier
import GuardElision.Program.Node
import GuardElision.Proofs.Flow.Closest
import GuardElision.Proofs.Flow.Dominance
import GuardElision.Proofs.Flow.Paths
import GuardElision.Proofs.Flow.Route
import GuardElision.Proofs.Flow.Walk
import GuardElision.Proofs.Match.Composition
import GuardElision.Proofs.Match.Dependencies
import GuardElision.Proofs.Match.Depth
import GuardElision.Proofs.Match.InStep
import GuardElision.Proofs.Match.Ladder
import GuardElision.Proofs.Match.Outside
import GuardElision.Proofs.Match.Requests
import GuardElision.Proofs.Match.Retrace
import GuardElision.Proofs.Match.Rules
import GuardElision.Proofs.Match.SameCondition
import GuardElision.Proofs.Match.Session
import GuardElision.Proofs.Match.Shape
import GuardElision.Proofs.Match.Value
import GuardElision.Proofs.Ordered.Map
import GuardElision.Proofs.Program.Builder
import GuardElision.Proofs.Redundancy.Added
import GuardElision.Proofs.Redundancy.Alike
import GuardElision.Proofs.Redundancy.EarlierCounts
import GuardElision.Proofs.Redundancy.Entries
import GuardElision.Proofs.Redundancy.Exact
import GuardElision.Proofs.Redundancy.Exhausted
import GuardElision.Proofs.Redundancy.Grounded
import GuardElision.Proofs.Redundancy.Growth
import GuardElision.Proofs.Redundancy.Offers
import GuardElision.Proofs.Redundancy.Sides
import GuardElision.Proofs.Redundancy.Survivor
import GuardElision.Proofs.Redundancy.Turn
import GuardElision.Proofs.Redundancy.UserCounts
import GuardElision.Proofs.Run.Accounting
import GuardElision.Proofs.Run.Costs
import GuardElision.Proofs.Run.Coverers
import GuardElision.Proofs.Run.Degraded
import GuardElision.Proofs.Run.Failure
import GuardElision.Proofs.Run.FoldOrder
import GuardElision.Proofs.Run.Folding
import GuardElision.Proofs.Run.Inventory
import GuardElision.Proofs.Run.Kept
import GuardElision.Proofs.Run.Outcome
import GuardElision.Proofs.Run.PhaseOrder
import GuardElision.Proofs.Run.Rerun
import GuardElision.Proofs.Run.UserOrder
import GuardElision.Proofs.Slice.Dependencies
import GuardElision.Proofs.Trace.Arrangement
import GuardElision.Proofs.Trace.Codec
import GuardElision.Reach
import GuardElision.Redundancy.Ledger
import GuardElision.Redundancy.Phases
import GuardElision.Redundancy.Subsumption
import GuardElision.Report.Basic
import GuardElision.Report.Writer
import GuardElision.Run.Analysis
import GuardElision.Run.Batch
import GuardElision.Run.Classifier
import GuardElision.Run.Inventory
import GuardElision.Settings.Basic
import GuardElision.Settings.Document
import GuardElision.Settings.Level
import GuardElision.Slice.Backward
import GuardElision.Slice.Cone
import GuardElision.Slice.Fingerprint
import GuardElision.Slice.Memo
import GuardElision.Trace.Bytes
import GuardElision.Trace.Evidence
import GuardElision.Trace.Record
import GuardElision.Yaml.Basic
import GuardElision.Yaml.Mark
import GuardElision.Yaml.Printer
import GuardElision.Yaml.Reader
import GuardElision.Yaml.Resolve
import GuardElision.Yaml.Scalar
import GuardElision.Yaml.Tag
import GuardElision.Yaml.Token
import GuardElision.Yaml.Tree
import GuardElision.Proofs.Slice.Cone
import GuardElision.Proofs.Cost.Ranking
import GuardElision.Proofs.Exchange.Classifier
import GuardElision.Proofs.Exchange.Document
import GuardElision.Proofs.Exchange.RoundTrip
import GuardElision.Proofs.Match.Induction
import GuardElision.Proofs.Program.Regular

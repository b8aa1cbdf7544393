import DocFind.Collection
import DocFind.CommandLine
import DocFind.CommandLine.FileFault
import DocFind.CommandLine.FileTree
import DocFind.CommandLine.Invocation
import DocFind.CommandLine.LogPath
import DocFind.CommandLine.Usage
import DocFind.Config
import DocFind.Config.Toml
import DocFind.Config.Toml.Reader
import DocFind.Counters
import DocFind.Database
import DocFind.Decimal
import DocFind.Document
import DocFind.Document.Identifier
import DocFind.Double
import DocFind.Double.Scaled
import DocFind.Double.Shortest
import DocFind.Double.Text
import DocFind.Entries
import DocFind.Execution
import DocFind.Failure
import DocFind.FieldPath
import DocFind.FieldPath.Resolve
import DocFind.Find
import DocFind.Index.Catalog
import DocFind.Index.Definition
import DocFind.Index.FieldIndex
import DocFind.Index.Key
import DocFind.Index.Range
import DocFind.Json
import DocFind.Json.Printer
import DocFind.Json.Reader
import DocFind.Log
import DocFind.Log.Capture
import DocFind.Log.Routing
import DocFind.Main
import DocFind.Number
import DocFind.Numeral
import DocFind.Plan
import DocFind.Projection
import DocFind.Proofs.Collection.Consistency
import DocFind.Proofs.Collection.Scan
import DocFind.Proofs.Collection.StoreInvariant
import DocFind.Proofs.Database.Accounting
import DocFind.Proofs.Database.Answers
import DocFind.Proofs.Database.Reachable
import DocFind.Proofs.Entries.Ascending
import DocFind.Proofs.Entries.Lookup
import DocFind.Proofs.Execution.Pipeline
import DocFind.Proofs.Execution.Window
import DocFind.Proofs.FieldPath.Join
import DocFind.Proofs.FieldPath.RoundTrip
import DocFind.Proofs.FieldPath.Text
import DocFind.Proofs.Find.AcrossStates
import DocFind.Proofs.Find.Exactness
import DocFind.Proofs.Find.Regrouping
import DocFind.Proofs.Find.ResultOrder
import DocFind.Proofs.Find.Selection
import DocFind.Proofs.Index.Changes
import DocFind.Proofs.Index.Contents
import DocFind.Proofs.Index.HalfOpen
import DocFind.Proofs.Index.KeyOrder
import DocFind.Proofs.Index.Range
import DocFind.Proofs.Index.Scan
import DocFind.Proofs.Index.Selection
import DocFind.Proofs.Json.Canonical
import DocFind.Proofs.Number.ExactValue
import DocFind.Proofs.Number.Finite
import DocFind.Proofs.OrderLaws
import DocFind.Proofs.Plan.DerivedRange
import DocFind.Proofs.Plan.Guard
import DocFind.Proofs.Plan.Hint
import DocFind.Proofs.Plan.Regrouping
import DocFind.Proofs.Plan.Scan
import DocFind.Proofs.Projection.Restriction
import DocFind.Proofs.Refusal
import DocFind.Proofs.Request.OptionValues
import DocFind.Proofs.Request.Options
import DocFind.Proofs.Request.Refusal
import DocFind.Proofs.Selector.Conjuncts
import DocFind.Proofs.Selector.Constraints
import DocFind.Proofs.Selector.Division
import DocFind.Proofs.Selector.Elements
import DocFind.Proofs.Selector.Grammar
import DocFind.Proofs.Selector.Height
import DocFind.Proofs.Selector.Meaning
import DocFind.Proofs.Selector.Parse
import DocFind.Proofs.Selector.ReadBack
import DocFind.Proofs.Selector.Sameness
import DocFind.Proofs.Selector.Spelling
import DocFind.Proofs.Selector.WellFormed
import DocFind.Proofs.SortOrder.Laws
import DocFind.Proofs.Value.Inside
import DocFind.Proofs.Value.NumericOrder
import DocFind.Proofs.Value.ReadBack
import DocFind.Proofs.Value.RoundTrip
import DocFind.Proofs.Value.Sameness
import DocFind.Proofs.Value.TotalOrder
import DocFind.Request
import DocFind.Selector
import DocFind.Selector.Constraints
import DocFind.Selector.Matching
import DocFind.Selector.Parse
import DocFind.SortOrder
import DocFind.Text.Alphanumeric
import DocFind.Text.Trim
import DocFind.Value
import DocFind.Value.Json
import DocFind.Value.Order

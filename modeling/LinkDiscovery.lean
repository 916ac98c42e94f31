import LinkDiscovery.CommandLine.Arguments
import LinkDiscovery.CommandLine.Commands
import LinkDiscovery.CommandLine.Help
import LinkDiscovery.Configuration
import LinkDiscovery.Decimal.Binary
import LinkDiscovery.Decimal.Numeral
import LinkDiscovery.Decimal.Shortest
import LinkDiscovery.Decimal.Text
import LinkDiscovery.Digest
import LinkDiscovery.Entity.Basic
import LinkDiscovery.Entity.Json
import LinkDiscovery.Execution.Buffer
import LinkDiscovery.Execution.Engine
import LinkDiscovery.Execution.Filter
import LinkDiscovery.Execution.Listing
import LinkDiscovery.Execution.Outcome
import LinkDiscovery.Expression.Basic
import LinkDiscovery.Expression.Grammar
import LinkDiscovery.Expression.Json
import LinkDiscovery.Expression.Outline
import LinkDiscovery.Expression.Table
import LinkDiscovery.Json.Basic
import LinkDiscovery.Json.Decoder
import LinkDiscovery.Json.Number
import LinkDiscovery.Json.Printer
import LinkDiscovery.Json.Reader
import LinkDiscovery.KnowledgeBase
import LinkDiscovery.Links.Algebra
import LinkDiscovery.Links.Basic
import LinkDiscovery.Links.Index
import LinkDiscovery.Links.Json
import LinkDiscovery.Links.Selection
import LinkDiscovery.Measure.Basic
import LinkDiscovery.Measure.Comparison
import LinkDiscovery.Measure.EditDistance
import LinkDiscovery.Measure.Registry
import LinkDiscovery.Measure.Scorer
import LinkDiscovery.Measure.Strings
import LinkDiscovery.Path
import LinkDiscovery.Plan.Basic
import LinkDiscovery.Plan.Canonical
import LinkDiscovery.Plan.Instruction
import LinkDiscovery.Plan.Json
import LinkDiscovery.Plan.Summary
import LinkDiscovery.Proofs.Decimal.ReadBack
import LinkDiscovery.Proofs.Decimal.Shortest
import LinkDiscovery.Proofs.Double.Arithmetic
import LinkDiscovery.Proofs.Double.Counts
import LinkDiscovery.Proofs.Double.Distance
import LinkDiscovery.Proofs.Double.Equality
import LinkDiscovery.Proofs.Double.Monotone
import LinkDiscovery.Proofs.Double.Numbers
import LinkDiscovery.Proofs.Double.Order
import LinkDiscovery.Proofs.Double.Packing
import LinkDiscovery.Proofs.Double.Rounding
import LinkDiscovery.Proofs.Double.Shares
import LinkDiscovery.Proofs.Double.Sign
import LinkDiscovery.Proofs.Entity.Insertions
import LinkDiscovery.Proofs.Execution.Agreement
import LinkDiscovery.Proofs.Execution.Alike
import LinkDiscovery.Proofs.Execution.Completion
import LinkDiscovery.Proofs.Execution.Cuts
import LinkDiscovery.Proofs.Execution.Endings
import LinkDiscovery.Proofs.Execution.EqualPlans
import LinkDiscovery.Proofs.Execution.Folds
import LinkDiscovery.Proofs.Execution.Growth
import LinkDiscovery.Proofs.Execution.Interchange
import LinkDiscovery.Proofs.Execution.Locality
import LinkDiscovery.Proofs.Execution.Meaning
import LinkDiscovery.Proofs.Execution.Mirror
import LinkDiscovery.Proofs.Execution.MissingSlots
import LinkDiscovery.Proofs.Execution.Outcomes
import LinkDiscovery.Proofs.Execution.Pairs
import LinkDiscovery.Proofs.Execution.Planned
import LinkDiscovery.Proofs.Execution.PostOrder
import LinkDiscovery.Proofs.Execution.Registered
import LinkDiscovery.Proofs.Execution.Rescoring
import LinkDiscovery.Proofs.Execution.Results
import LinkDiscovery.Proofs.Execution.Review
import LinkDiscovery.Proofs.Execution.Stages
import LinkDiscovery.Proofs.Execution.Sums
import LinkDiscovery.Proofs.Execution.Support
import LinkDiscovery.Proofs.Execution.Unresolved
import LinkDiscovery.Proofs.Grammar.Arguments
import LinkDiscovery.Proofs.Grammar.CutShort
import LinkDiscovery.Proofs.Grammar.Descent
import LinkDiscovery.Proofs.Grammar.Leaves
import LinkDiscovery.Proofs.Grammar.Levels
import LinkDiscovery.Proofs.Grammar.Mirror
import LinkDiscovery.Proofs.Grammar.Recognition
import LinkDiscovery.Proofs.Grammar.Scanner
import LinkDiscovery.Proofs.Grammar.Spelling
import LinkDiscovery.Proofs.Grammar.Tokens
import LinkDiscovery.Proofs.Grammar.Whole
import LinkDiscovery.Proofs.Links.Accumulation
import LinkDiscovery.Proofs.Links.BestPairs
import LinkDiscovery.Proofs.Links.Cuts
import LinkDiscovery.Proofs.Links.Equality
import LinkDiscovery.Proofs.Links.Index
import LinkDiscovery.Proofs.Links.Lattice
import LinkDiscovery.Proofs.Links.Lookup
import LinkDiscovery.Proofs.Links.PairLines
import LinkDiscovery.Proofs.Links.Partition
import LinkDiscovery.Proofs.Links.Reversal
import LinkDiscovery.Proofs.Links.Size
import LinkDiscovery.Proofs.Measure.BestPair
import LinkDiscovery.Proofs.Measure.EditDistance
import LinkDiscovery.Proofs.Measure.EditScripts
import LinkDiscovery.Proofs.Measure.Names
import LinkDiscovery.Proofs.Measure.Resolution
import LinkDiscovery.Proofs.Measure.Scores
import LinkDiscovery.Proofs.Measure.Similarity
import LinkDiscovery.Proofs.Measure.UnitInterval
import LinkDiscovery.Proofs.Path.Variables
import LinkDiscovery.Proofs.Specification.Bars
import LinkDiscovery.Proofs.Specification.Canonical
import LinkDiscovery.Proofs.Specification.Consistency
import LinkDiscovery.Proofs.Specification.Distinct
import LinkDiscovery.Proofs.Specification.Equality
import LinkDiscovery.Proofs.Specification.LeafPaths
import LinkDiscovery.Proofs.Specification.Nodes
import LinkDiscovery.Proofs.Specification.Ordering
import LinkDiscovery.Proofs.Specification.Plans
import LinkDiscovery.Proofs.Specification.Redundancy
import LinkDiscovery.Proofs.Specification.Rereading
import LinkDiscovery.Proofs.Specification.WrittenOut
import LinkDiscovery.Score
import LinkDiscovery.Specification.Basic
import LinkDiscovery.Specification.Building
import LinkDiscovery.Specification.Comparison
import LinkDiscovery.Specification.Json
import LinkDiscovery.Specification.Printing
import LinkDiscovery.Specification.Reading
import LinkDiscovery.Text.Blank
import LinkDiscovery.Text.Case.Context
import LinkDiscovery.Text.Case.Lower
import LinkDiscovery.Text.Hidden
import LinkDiscovery.Text.Letters
import LinkDiscovery.Text.LowerCase
import LinkDiscovery.Text.Quoted
import LinkDiscovery.Text.Range
import LinkDiscovery.Text.Scanner
import LinkDiscovery.Main

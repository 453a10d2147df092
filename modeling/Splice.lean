import Splice.Text.Blank
import Splice.Text.Quoted
import Splice.Decimal.Exact
import Splice.Decimal.Places
import Splice.Decimal.Layout
import Splice.Decimal.Reading
import Splice.Token.Scan
import Splice.Span
import Splice.Node.Print
import Splice.Node.Source
import Splice.Json.Reading
import Splice.Value.Equality
import Splice.Value.Display
import Splice.Scope
import Splice.NumberPattern
import Splice.Path
import Splice.Query
import Splice.Calendar.Pattern
import Splice.Action
import Splice.Catalogue
import Splice.Eval
import Splice.Routine
import Splice.Main
import Splice.Proofs.Writing
import Splice.Proofs.Wrapping
import Splice.Proofs.Filling
import Splice.Proofs.Segmentation
import Splice.Proofs.Inlining
import Splice.Proofs.Reachability
import Splice.Proofs.Termination
import Splice.Proofs.Demand
import Splice.Proofs.Choice
import Splice.Proofs.Rescanning
import Splice.Proofs.Rejection
import Splice.Proofs.Phases
import Splice.Proofs.Deferral
import Splice.Proofs.Chains
import Splice.Proofs.Equality
import Splice.Proofs.Comparison
import Splice.Proofs.Properties
import Splice.Proofs.Connectives
import Splice.Proofs.Formatting
import Splice.Proofs.Integers
import Splice.Proofs.Boundaries
import Splice.Proofs.Unquoting
import Splice.Proofs.Queries
import Splice.Proofs.Printing
import Splice.Proofs.Endings
import Splice.Proofs.Timestamps
import Splice.Proofs.Ranges

import CodeReview.Command.Serve
import CodeReview.Gateway.Router
import CodeReview.Main
import CodeReview.Proofs.Text.Trim
import CodeReview.Proofs.Text.Bytes
import CodeReview.Proofs.Text.Split
import CodeReview.Proofs.Text.Runs
import CodeReview.Proofs.Vocabulary
import CodeReview.Proofs.Prompt
import CodeReview.Proofs.Review
import CodeReview.Proofs.Decimal.Binary64
import CodeReview.Proofs.Report.Schema
import CodeReview.Proofs.Json.Scan
import CodeReview.Proofs.Json.Spelling
import CodeReview.Proofs.Json.Numeral
import CodeReview.Proofs.Json.Grammar
import CodeReview.Proofs.Json.Reader
import CodeReview.Proofs.Json.Skip
import CodeReview.Proofs.Json.Acceptance
import CodeReview.Proofs.Json.Printer
import CodeReview.Proofs.Decimal.Bounds
import CodeReview.Proofs.Decimal.Shortest
import CodeReview.Proofs.Decimal.Literal
import CodeReview.Proofs.Decimal.Whole
import CodeReview.Proofs.Json.Float
import CodeReview.Proofs.Json.Encoding
import CodeReview.Proofs.Json.Record
import CodeReview.Proofs.Json.Members
import CodeReview.Proofs.Json.Demand
import CodeReview.Proofs.Json.OneLine
import CodeReview.Proofs.Json.Image
import CodeReview.Proofs.Reply
import CodeReview.Proofs.Reply.Extraction
import CodeReview.Proofs.Report.Measure
import CodeReview.Proofs.Report.Paths
import CodeReview.Proofs.Report.Lines
import CodeReview.Proofs.Report.Wire
import CodeReview.Proofs.Report.Coordinates
import CodeReview.Proofs.Report.FixedPoint
import CodeReview.Proofs.Invocation
import CodeReview.Proofs.Request
import CodeReview.Proofs.Gateway
import CodeReview.Proofs.Surfaces
import CodeReview.Proofs.Provider.Completion
import CodeReview.Proofs.Messages
import CodeReview.Proofs.Provider.Settings
import CodeReview.Proofs.Gateway.Settings
import CodeReview.Proofs.Gateway.Cors
import CodeReview.Proofs.Command.Arguments
import CodeReview.Proofs.Command.World
import CodeReview.Proofs.Command.Serve
import CodeReview.Proofs.Command.EnvironmentFile
import CodeReview.Proofs.Command.ReportText
import CodeReview.Proofs.Command.Output
import CodeReview.Proofs.Command.Review
import CodeReview.Proofs.Provider.Call
import CodeReview.Proofs.Review.Blank
import CodeReview.Proofs.Report.Words
import CodeReview.Proofs.Path
import CodeReview.Proofs.Net.Address
import CodeReview.Proofs.Gateway.Address
import CodeReview.Proofs.Decimal.Kept
import CodeReview.Proofs.Decimal.Arithmetic
import CodeReview.Proofs.Report.Debt

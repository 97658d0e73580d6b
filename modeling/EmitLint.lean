import EmitLint.Linter
import EmitLint.Config.File
import EmitLint.Rule.EmitValidator
import EmitLint.Config.RuleMap
import EmitLint.Rule.Meta
import EmitLint.Toml.Document
import EmitLint.Decimal.Shortest
import EmitLint.Json.Reader
import EmitLint.Config.Setting
import EmitLint.Sfc.Block
import EmitLint.Report.Summary
import EmitLint.Decimal.Binary64
import EmitLint.FixLoop
import EmitLint.Syntax.Parse
import EmitLint.Syntax.Letter
import EmitLint.Syntax.FileName
import EmitLint.Proofs.Syntax.FileName
import EmitLint.Syntax.Place
import EmitLint.Syntax.Numeral
import EmitLint.Syntax.Quoted
import EmitLint.Syntax.Token
import EmitLint.Syntax.Grammar
import EmitLint.Syntax.Grammar.Name
import EmitLint.Syntax.Grammar.Types
import EmitLint.Syntax.Grammar.Binding
import EmitLint.Syntax.Grammar.Function
import EmitLint.Syntax.Grammar.Class
import EmitLint.Syntax.Grammar.Markup
import EmitLint.Syntax.Grammar.Target
import EmitLint.Syntax.Grammar.Expression
import EmitLint.Syntax.Grammar.Declaration
import EmitLint.Proofs.Syntax.Node
import EmitLint.Proofs.Syntax.Address
import EmitLint.Proofs.Component.Walk
import EmitLint.Proofs.Component.Forms
import EmitLint.Proofs.Syntax.Rewriting
import EmitLint.Proofs.Component.Compare
import EmitLint.Proofs.Rule.Nulls
import EmitLint.Proofs.Rule.Settled
import EmitLint.Proofs.Rule.SettledReports
import EmitLint.Proofs.Rule.Reports
import EmitLint.Proofs.Text.Edit
import EmitLint.Proofs.Rule.Suggestion
import EmitLint.Proofs.Sfc.Cut
import EmitLint.Proofs.Rule.Placed
import EmitLint.Proofs.Text.Boundary
import EmitLint.Proofs.Sfc.Offsets
import EmitLint.Proofs.Rule.LookAhead
import EmitLint.Proofs.Component.Order
import EmitLint.Proofs.Component.Ownership
import EmitLint.Proofs.Rule.Once
import EmitLint.Proofs.Sfc.Search
import EmitLint.Proofs.Sfc.Parts
import EmitLint.Proofs.Sfc.Blocks
import EmitLint.Proofs.Text.Ascii
import EmitLint.Proofs.Sfc.Written
import EmitLint.Proofs.Sfc.Attributes
import EmitLint.Proofs.Sfc.RoundTrip
import EmitLint.Proofs.Sfc.EntryPoints
import EmitLint.Proofs.Sfc.Locality
import EmitLint.Proofs.Sfc.Editing
import EmitLint.Proofs.Sfc.Suggestion
import EmitLint.Proofs.Rule.Contract
import EmitLint.Proofs.Syntax.Wrapping
import EmitLint.Proofs.Rule.Wrapping
import EmitLint.Proofs.Component.Located
import EmitLint.Proofs.Component.Modes
import EmitLint.Proofs.Component.Reordering
import EmitLint.Proofs.Rule.Reordering
import EmitLint.Proofs.Linter.Batch
import EmitLint.Proofs.Linter.Settings
import EmitLint.Proofs.Linter.Counts
import EmitLint.Proofs.Report.FromBack
import EmitLint.Proofs.Report.AtOnce
import EmitLint.Proofs.Report.Listing
import EmitLint.Proofs.Report.PassedOver
import EmitLint.Proofs.Sfc.Places
import EmitLint.Proofs.Sfc.Cursor
import EmitLint.Proofs.Sfc.Turns
import EmitLint.Proofs.Sfc.Total
import EmitLint.Proofs.Sfc.Tiling
import EmitLint.Proofs.Sfc.Errors
import EmitLint.Proofs.Sfc.Nesting
import EmitLint.Proofs.Sfc.External
import EmitLint.Proofs.Sfc.Entries
import EmitLint.Proofs.Sfc.Spacing
import EmitLint.Proofs.Component.Origin
import EmitLint.Proofs.Syntax.Chain
import EmitLint.Proofs.Component.Chains
import EmitLint.Proofs.Component.Extraction
import EmitLint.Proofs.Rule.Steps
import EmitLint.Proofs.Config.Presentation
import EmitLint.Proofs.Config.Validation

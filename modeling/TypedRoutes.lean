import TypedRoutes.Artifact.Check
import TypedRoutes.Artifact.Closure
import TypedRoutes.Artifact.Mode
import TypedRoutes.Artifact.Registry
import TypedRoutes.Artifact.Scope
import TypedRoutes.Artifact.Serialize
import TypedRoutes.Artifact.Validate
import TypedRoutes.Command.Arguments
import TypedRoutes.Command.Run
import TypedRoutes.Decimal.Layout
import TypedRoutes.Decimal.Nearest
import TypedRoutes.Decimal.Shortest
import TypedRoutes.Disk.Access
import TypedRoutes.Disk.Path
import TypedRoutes.Disk.Volume
import TypedRoutes.Json.Draft
import TypedRoutes.Json.Form
import TypedRoutes.Json.Numeral
import TypedRoutes.Json.Printer
import TypedRoutes.Json.Shape
import TypedRoutes.Json.Token
import TypedRoutes.Json.TokenLength
import TypedRoutes.Json.Value
import TypedRoutes.KeyMap
import TypedRoutes.Main
import TypedRoutes.Proofs.Checks.Conditions
import TypedRoutes.Proofs.Checks.Correct
import TypedRoutes.Proofs.Checks.Guarded
import TypedRoutes.Proofs.Checks.Helpers
import TypedRoutes.Proofs.Checks.Matching
import TypedRoutes.Proofs.Checks.Program
import TypedRoutes.Proofs.Checks.Undefined
import TypedRoutes.Proofs.Decimal.Digits
import TypedRoutes.Proofs.Decimal.Naturals
import TypedRoutes.Proofs.Decimal.Packing
import TypedRoutes.Proofs.Decimal.Rounding
import TypedRoutes.Proofs.Generation.Congruence
import TypedRoutes.Proofs.Generation.Drain
import TypedRoutes.Proofs.Generation.Histories
import TypedRoutes.Proofs.Generation.Hygiene
import TypedRoutes.Proofs.Generation.Linking
import TypedRoutes.Proofs.Generation.Names
import TypedRoutes.Proofs.Generation.Occurrences
import TypedRoutes.Proofs.Generation.Reached
import TypedRoutes.Proofs.Generation.Requests
import TypedRoutes.Proofs.Generation.Shadowing
import TypedRoutes.Proofs.Generation.Stability
import TypedRoutes.Proofs.Generation.Steps
import TypedRoutes.Proofs.Grammar.Braces
import TypedRoutes.Proofs.Grammar.Receivers
import TypedRoutes.Proofs.Grammar.RoundTrip
import TypedRoutes.Proofs.Grammar.Strings
import TypedRoutes.Proofs.Json.Containers
import TypedRoutes.Proofs.Json.Quoting
import TypedRoutes.Proofs.Modes.Agreement
import TypedRoutes.Proofs.Route.Allowed
import TypedRoutes.Proofs.Route.Idempotence
import TypedRoutes.Proofs.Route.Locations
import TypedRoutes.Proofs.Route.Report
import TypedRoutes.Proofs.Run.Destinations
import TypedRoutes.Proofs.Run.Rendered
import TypedRoutes.Proofs.Run.Repeat
import TypedRoutes.Proofs.Runtime.Calculus
import TypedRoutes.Proofs.Runtime.Data
import TypedRoutes.Proofs.Runtime.Divergence
import TypedRoutes.Proofs.Runtime.Isolated
import TypedRoutes.Proofs.Runtime.Lists
import TypedRoutes.Proofs.Runtime.Machine
import TypedRoutes.Proofs.Runtime.Natives
import TypedRoutes.Proofs.Runtime.Parts
import TypedRoutes.Proofs.Runtime.Positions
import TypedRoutes.Proofs.Runtime.Tests
import TypedRoutes.Proofs.Runtime.Texts
import TypedRoutes.Proofs.Script.Concatenations
import TypedRoutes.Proofs.Script.Junctions
import TypedRoutes.Proofs.Script.Layout
import TypedRoutes.Proofs.Serializers.Choices
import TypedRoutes.Proofs.Serializers.Correct
import TypedRoutes.Proofs.Serializers.Gapped
import TypedRoutes.Proofs.Serializers.Program
import TypedRoutes.Proofs.Serializers.Total
import TypedRoutes.Proofs.Text.Pieces
import TypedRoutes.Proofs.Types.Aliases
import TypedRoutes.Proofs.Types.Faithful
import TypedRoutes.Proofs.Types.Unknown
import TypedRoutes.Proofs.Unit.RoundTrip
import TypedRoutes.Proofs.Validation.Correct
import TypedRoutes.Proofs.Validation.Errors
import TypedRoutes.Proofs.Validation.Paths
import TypedRoutes.Proofs.Validation.Program
import TypedRoutes.Proofs.Validation.Reports
import TypedRoutes.Route.AllowList
import TypedRoutes.Route.Augment
import TypedRoutes.Route.Decision
import TypedRoutes.Route.Location
import TypedRoutes.Run.Load
import TypedRoutes.Run.Results
import TypedRoutes.Run.Write
import TypedRoutes.Scan.Ignore
import TypedRoutes.Scan.Pattern
import TypedRoutes.Scan.Snapshots
import TypedRoutes.Script.Build
import TypedRoutes.Script.Expr
import TypedRoutes.Script.Printer
import TypedRoutes.Script.Same
import TypedRoutes.Script.TypeExpr
import TypedRoutes.Settings.Basic
import TypedRoutes.Settings.File
import TypedRoutes.Source.Basic
import TypedRoutes.Source.Resolver
import TypedRoutes.Source.Same
import TypedRoutes.Source.Snapshot
import TypedRoutes.Text.Bytes
import TypedRoutes.Text.Hexadecimal
import TypedRoutes.Text.Identifier
import TypedRoutes.Text.Lines
import TypedRoutes.Text.NumberLiteral
import TypedRoutes.Text.Quoted
import TypedRoutes.Text.Search
import TypedRoutes.Toml.Literal
import TypedRoutes.Toml.Reader
import TypedRoutes.Toml.Table
import TypedRoutes.Toml.Token
import TypedRoutes.Toml.Value
import TypedRoutes.Types.Basic
import TypedRoutes.Types.Flags
import TypedRoutes.Types.References
import TypedRoutes.Types.Table
import TypedRoutes.Types.Written
import TypedRoutes.Unit.Decode
import TypedRoutes.Unit.DecodeTypes
import TypedRoutes.Unit.Encode
import TypedRoutes.Unit.Read

import DesignTokens.Compile
import DesignTokens.Context
import DesignTokens.Css.Color
import DesignTokens.Css.Composite
import DesignTokens.Css.Convert
import DesignTokens.Css.Declared
import DesignTokens.Css.File
import DesignTokens.Css.Fluid
import DesignTokens.Css.Scalar
import DesignTokens.Css.Sheet
import DesignTokens.Css.Value
import DesignTokens.Decimal.Layout
import DesignTokens.Decimal.Power
import DesignTokens.Decimal.Shortest
import DesignTokens.Document.Basic
import DesignTokens.Document.Check
import DesignTokens.Document.Error
import DesignTokens.Document.Expand
import DesignTokens.Document.Read
import DesignTokens.Document.Target
import DesignTokens.Files.Basic
import DesignTokens.Files.Tokens
import DesignTokens.Flat
import DesignTokens.Json.Basic
import DesignTokens.Json.Compact
import DesignTokens.Json.Decoder
import DesignTokens.Json.Literal
import DesignTokens.Json.Pointer
import DesignTokens.Json.Raw
import DesignTokens.Lint.Composite
import DesignTokens.Lint.Diagnostic
import DesignTokens.Lint.Issue
import DesignTokens.Lint.Rule
import DesignTokens.Lint.Scalar
import DesignTokens.Load
import DesignTokens.Modifier
import DesignTokens.Name
import DesignTokens.Path
import DesignTokens.Project
import DesignTokens.Proofs.Compile.Faithful
import DesignTokens.Proofs.Compile.Findings
import DesignTokens.Proofs.Compile.Overlays
import DesignTokens.Proofs.Compile.Suppression
import DesignTokens.Proofs.Compile.Uses
import DesignTokens.Proofs.Css.Carried
import DesignTokens.Proofs.Css.Colors
import DesignTokens.Proofs.Css.Composites
import DesignTokens.Proofs.Css.Evaluation
import DesignTokens.Proofs.Css.Files
import DesignTokens.Proofs.Css.Families
import DesignTokens.Proofs.Css.Fragments
import DesignTokens.Proofs.Css.Kept
import DesignTokens.Proofs.Css.Layers
import DesignTokens.Proofs.Css.Operands
import DesignTokens.Proofs.Css.Parts
import DesignTokens.Proofs.Css.Quoted
import DesignTokens.Proofs.Css.Readings
import DesignTokens.Proofs.Css.Rules
import DesignTokens.Proofs.Css.Sheets
import DesignTokens.Proofs.Css.Styles
import DesignTokens.Proofs.Css.Texts
import DesignTokens.Proofs.Css.Types
import DesignTokens.Proofs.Css.Views
import DesignTokens.Proofs.Css.Written
import DesignTokens.Proofs.Flat.Keys
import DesignTokens.Proofs.Flat.Merge
import DesignTokens.Proofs.Flat.Nesting
import DesignTokens.Proofs.Flat.Place
import DesignTokens.Proofs.Flat.Trees
import DesignTokens.Proofs.Lint.Accepted
import DesignTokens.Proofs.Resolution.Faults
import DesignTokens.Proofs.Resolution.Graph
import DesignTokens.Proofs.Resolution.Order
import DesignTokens.Proofs.Resolution.Outcomes
import DesignTokens.Proofs.Resolution.Parts
import DesignTokens.Proofs.Resolution.References
import DesignTokens.Proofs.Resolution.Settled
import DesignTokens.Proofs.Resolution.Values
import DesignTokens.Proofs.Resolution.Walk
import DesignTokens.Proofs.Steps
import DesignTokens.Proofs.Tables
import DesignTokens.Proofs.Text.Pieces
import DesignTokens.Proofs.Tree.Parsed
import DesignTokens.Reference
import DesignTokens.Resolution
import DesignTokens.Resolution.Error
import DesignTokens.Settings
import DesignTokens.Table
import DesignTokens.Text.Blank
import DesignTokens.Text.Letter
import DesignTokens.Text.Lower
import DesignTokens.Text.Run
import DesignTokens.Text.Split
import DesignTokens.TokenType
import DesignTokens.Tree.Basic
import DesignTokens.Tree.OfJson
import DesignTokens.Proofs.Resolution.Isolation
import DesignTokens.Proofs.Resolution.Origins
import DesignTokens.Proofs.Compile.Isolation
import DesignTokens.Proofs.Css.Failures
import DesignTokens.Proofs.Compile.Failures
import DesignTokens.Proofs.Document.Expansion
import DesignTokens.Proofs.Document.Reach
import DesignTokens.Proofs.Document.Trees
import DesignTokens.Proofs.Document.Disks
import DesignTokens.Proofs.Json.Reads
import DesignTokens.Proofs.Document.Listed
import DesignTokens.Proofs.Document.Preload
import DesignTokens.Proofs.Name.Words
import DesignTokens.Proofs.Css.Slots
import DesignTokens.Proofs.Tree.Types
import DesignTokens.Proofs.Compile.Strays
import DesignTokens.Proofs.Compile.Slots
import DesignTokens.Proofs.Document.Cycles
import DesignTokens.Proofs.Compile.Files
import DesignTokens.Proofs.Compile.Cascade
import DesignTokens.Proofs.Compile.Styles
import DesignTokens.Proofs.Json.Numbers
import DesignTokens.Proofs.Json.Written
import DesignTokens.Proofs.Json.Shapes
import DesignTokens.Proofs.Document.RoundTrip
import DesignTokens.Proofs.Files.Paths
import DesignTokens.Proofs.Files.Locations
import DesignTokens.Proofs.Resolution.Reports
import DesignTokens.Proofs.Compile.Aliases
import DesignTokens.Proofs.Css.Gradients
import DesignTokens.Proofs.Compile.Gradients
import DesignTokens.Proofs.Tree.Reading
import DesignTokens.Proofs.Css.Doubles
import DesignTokens.Proofs.Css.Fluid
import DesignTokens.Proofs.Compile.Fallbacks
import DesignTokens.Proofs.Css.Legible
import DesignTokens.Proofs.Resolution.Names
import DesignTokens.Proofs.Flat.Alone
import DesignTokens.Proofs.Files.Scoped
import DesignTokens.Proofs.Css.Composed
import DesignTokens.Proofs.Name.Letters
import DesignTokens.Proofs.Css.Interpolated
import DesignTokens.Proofs.Compile.Interpolation
import DesignTokens.Proofs.Css.Scan
import DesignTokens.Proofs.Css.Grammar
import DesignTokens.Proofs.Css.Contained
import DesignTokens.Proofs.Compile.Encoding
import DesignTokens.Proofs.Document.Addresses
import DesignTokens.Proofs.Name.Cache
import DesignTokens.Proofs.Css.Rendered
import DesignTokens.Proofs.Css.Strings
import DesignTokens.Proofs.Css.FamilyNames
import DesignTokens.Proofs.Resolution.Walker
import DesignTokens.Proofs.Resolution.Visits
import DesignTokens.Proofs.Name.Calls
import DesignTokens.Proofs.Files.NormalForms
import DesignTokens.Proofs.Name.Settled

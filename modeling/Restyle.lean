import Restyle.Adapter.Basic
import Restyle.Adapter.Imports
import Restyle.Cli.Arguments
import Restyle.Cli.Directory
import Restyle.Cli.Run
import Restyle.Cli.World
import Restyle.Component.Basic
import Restyle.Component.Build
import Restyle.Component.Encoding
import Restyle.Component.Props
import Restyle.Component.Record
import Restyle.Config
import Restyle.Conversion.Basic
import Restyle.Conversion.Emission
import Restyle.Conversion.Run
import Restyle.Css.Rule
import Restyle.Css.Selector
import Restyle.Css.Sheet
import Restyle.Css.Slot
import Restyle.Css.Split
import Restyle.Css.Template
import Restyle.Css.Token
import Restyle.Data.Basic
import Restyle.Data.Check
import Restyle.Data.Field
import Restyle.Data.Json
import Restyle.Data.Spelling
import Restyle.Decimal.Double
import Restyle.Decimal.Reader
import Restyle.Decimal.Shortest
import Restyle.Diagnostic
import Restyle.DiagnosticName
import Restyle.Emit.CallSites
import Restyle.Emit.ImportBlock
import Restyle.Emit.Wrapper
import Restyle.Interpolation.AdapterSpec
import Restyle.Interpolation.Classify
import Restyle.Interpolation.Decision
import Restyle.Interpolation.Encoding
import Restyle.Interpolation.Handlers
import Restyle.Journal
import Restyle.Lowering.Lower
import Restyle.Lowering.Pass
import Restyle.Lowering.Passes
import Restyle.Lowering.Selector
import Restyle.Main
import Restyle.Module.Basic
import Restyle.Module.Declarations
import Restyle.Module.Edit
import Restyle.Module.Imports
import Restyle.Module.TypeArguments
import Restyle.Module.Unsupported
import Restyle.Module.Usage
import Restyle.Path
import Restyle.Plan.Attribute
import Restyle.Plan.Basic
import Restyle.Plan.Encoding
import Restyle.Plan.Facts
import Restyle.Plan.Planner
import Restyle.Plan.Summary
import Restyle.Proofs.Additions
import Restyle.Proofs.Agreement
import Restyle.Proofs.Backing
import Restyle.Proofs.Bindings
import Restyle.Proofs.Blanking
import Restyle.Proofs.Blocks
import Restyle.Proofs.Bracketing
import Restyle.Proofs.Bridges
import Restyle.Proofs.Building
import Restyle.Proofs.Carrying
import Restyle.Proofs.Cascade
import Restyle.Proofs.Collecting
import Restyle.Proofs.Collision
import Restyle.Proofs.Completion
import Restyle.Proofs.Crossings
import Restyle.Proofs.Cutting
import Restyle.Proofs.Dangling
import Restyle.Proofs.Deciding
import Restyle.Proofs.Decision
import Restyle.Proofs.Defaults
import Restyle.Proofs.Destructuring
import Restyle.Proofs.Enclosure
import Restyle.Proofs.Escapes
import Restyle.Proofs.Evaluating
import Restyle.Proofs.Fates
import Restyle.Proofs.Filling
import Restyle.Proofs.Flattening
import Restyle.Proofs.Folding
import Restyle.Proofs.Fragments
import Restyle.Proofs.Functions
import Restyle.Proofs.Gaps
import Restyle.Proofs.Growth
import Restyle.Proofs.Guards
import Restyle.Proofs.Helpers
import Restyle.Proofs.Hyphens
import Restyle.Proofs.Inlining
import Restyle.Proofs.Labels
import Restyle.Proofs.LastWord
import Restyle.Proofs.Leftovers
import Restyle.Proofs.Lending
import Restyle.Proofs.Linking
import Restyle.Proofs.Literals
import Restyle.Proofs.Longhands
import Restyle.Proofs.Lookup
import Restyle.Proofs.Losses
import Restyle.Proofs.Lowering
import Restyle.Proofs.Marks
import Restyle.Proofs.Meaning
import Restyle.Proofs.Merging
import Restyle.Proofs.Nested
import Restyle.Proofs.Notation
import Restyle.Proofs.Outcomes
import Restyle.Proofs.Placement
import Restyle.Proofs.Playback
import Restyle.Proofs.Printing
import Restyle.Proofs.Quotations
import Restyle.Proofs.Raising
import Restyle.Proofs.Receiving
import Restyle.Proofs.References
import Restyle.Proofs.Removal
import Restyle.Proofs.Renaming
import Restyle.Proofs.Rendering
import Restyle.Proofs.Reordering
import Restyle.Proofs.Replies
import Restyle.Proofs.Requests
import Restyle.Proofs.Respelling
import Restyle.Proofs.Resting
import Restyle.Proofs.Retention
import Restyle.Proofs.Scoping
import Restyle.Proofs.Script
import Restyle.Proofs.Settling
import Restyle.Proofs.Siblings
import Restyle.Proofs.Slots
import Restyle.Proofs.Spacing
import Restyle.Proofs.Splicing
import Restyle.Proofs.Spreading
import Restyle.Proofs.Standing
import Restyle.Proofs.Table
import Restyle.Proofs.Tokens
import Restyle.Proofs.Transient
import Restyle.Proofs.Trees
import Restyle.Proofs.Variables
import Restyle.Proofs.Variants
import Restyle.Proofs.Visits
import Restyle.Proofs.Ways
import Restyle.Proofs.Work
import Restyle.Registry
import Restyle.Session
import Restyle.Style.Conditional
import Restyle.Style.Converter
import Restyle.Style.Encoding
import Restyle.Style.Join
import Restyle.Style.Merge
import Restyle.Style.Naming
import Restyle.Style.Property
import Restyle.Style.PseudoPath
import Restyle.Style.Render
import Restyle.Style.Shorthand
import Restyle.Style.Value
import Restyle.Table
import Restyle.Text.Blank
import Restyle.Text.Bytes
import Restyle.Text.CaseContext
import Restyle.Text.CaseMap
import Restyle.Text.Letter
import Restyle.Text.LetterRanges
import Restyle.Text.Quoted
import Restyle.Text.Scan
import Restyle.Text.Search
import Restyle.Toml.Document
import Restyle.Toml.Scalar
import Restyle.Trace
import Restyle.Tsx.Cursor
import Restyle.Tsx.Ending
import Restyle.Tsx.Grammar
import Restyle.Tsx.Grammar.Basic
import Restyle.Tsx.Grammar.Expression
import Restyle.Tsx.Grammar.Markup
import Restyle.Tsx.Grammar.Statement
import Restyle.Tsx.Grammar.Tie
import Restyle.Tsx.Grammar.TypeForm
import Restyle.Tsx.Lexeme
import Restyle.Tsx.Node
import Restyle.Tsx.Pattern
import Restyle.Tsx.Shape
import Restyle.Tsx.Source

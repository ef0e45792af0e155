import Keyplan.Backend
import Keyplan.Calendar
import Keyplan.Cli
import Keyplan.Cli.Arguments
import Keyplan.Cli.Summary
import Keyplan.Compilation
import Keyplan.Config
import Keyplan.CustomKeys
import Keyplan.Decimal
import Keyplan.Decimal.Binary
import Keyplan.Decimal.Shortest
import Keyplan.Defaults
import Keyplan.Description
import Keyplan.Description.Parser
import Keyplan.Diagnostic
import Keyplan.Diagram
import Keyplan.Files
import Keyplan.Files.Tree
import Keyplan.Firmware.Action
import Keyplan.Firmware.Allocator
import Keyplan.Firmware.Binding
import Keyplan.Firmware.Table
import Keyplan.Format
import Keyplan.Golden.Case
import Keyplan.Golden.Listing
import Keyplan.Golden.Verdict
import Keyplan.KeyRegistry
import Keyplan.Keymap
import Keyplan.Layer
import Keyplan.Layout
import Keyplan.Log
import Keyplan.Main
import Keyplan.OptionTable
import Keyplan.OrderedMap
import Keyplan.Path
import Keyplan.Proofs.Compilation.Defaults
import Keyplan.Proofs.Compilation.Failures
import Keyplan.Proofs.Compilation.Regrouping
import Keyplan.Proofs.Description.Forgetting
import Keyplan.Proofs.Firmware.Allocator
import Keyplan.Proofs.Firmware.Growth
import Keyplan.Proofs.Firmware.Requests
import Keyplan.Proofs.Firmware.Table
import Keyplan.Proofs.Format.Canonical
import Keyplan.Proofs.Format.Idempotence
import Keyplan.Proofs.Format.Lines
import Keyplan.Proofs.Format.Meaning
import Keyplan.Proofs.Format.Reading
import Keyplan.Proofs.Format.Words
import Keyplan.Proofs.Golden.Delimiters
import Keyplan.Proofs.Golden.Sources
import Keyplan.Proofs.Grammar
import Keyplan.Proofs.Grammar.Completeness
import Keyplan.Proofs.Grammar.Extents
import Keyplan.Proofs.Grammar.Shapes
import Keyplan.Proofs.Grammar.Soundness
import Keyplan.Proofs.Guarded
import Keyplan.Proofs.Guarded.Compilation
import Keyplan.Proofs.Guarded.Diagram
import Keyplan.Proofs.Guarded.Firmware
import Keyplan.Proofs.Guarded.Format
import Keyplan.Proofs.Guarded.Grid
import Keyplan.Proofs.Guarded.Parsing
import Keyplan.Proofs.Guarded.Placement
import Keyplan.Proofs.Guarded.Reader
import Keyplan.Proofs.Guarded.Tokens
import Keyplan.Proofs.Keymap
import Keyplan.Proofs.Keymap.Agreement
import Keyplan.Proofs.Keymap.Backends
import Keyplan.Proofs.Keymap.Chords
import Keyplan.Proofs.Keymap.Forgetting
import Keyplan.Proofs.Keymap.Isolation
import Keyplan.Proofs.Layer.Placement
import Keyplan.Proofs.Layout.Acceptance
import Keyplan.Proofs.Layout.Coherence
import Keyplan.Proofs.Layout.Coordinates
import Keyplan.Proofs.Layout.Maps
import Keyplan.Proofs.Layout.Resolution
import Keyplan.Proofs.Located
import Keyplan.Proofs.Located.Parsing
import Keyplan.Proofs.Located.Resolution
import Keyplan.Proofs.OptionTable
import Keyplan.Proofs.OrderedMap
import Keyplan.Proofs.Outcome
import Keyplan.Proofs.Outline
import Keyplan.Proofs.Text
import Keyplan.Proofs.Token.LongestMatch
import Keyplan.Proofs.Token.Order
import Keyplan.Proofs.Token.Patterns
import Keyplan.Proofs.Token.Places
import Keyplan.Proofs.Token.Quotation
import Keyplan.Proofs.Token.Spelling
import Keyplan.Proofs.Underlining
import Keyplan.Report
import Keyplan.Snippet
import Keyplan.Span
import Keyplan.Suggestion
import Keyplan.Suggestion.EditDistance
import Keyplan.Terminal.Block
import Keyplan.Terminal.Columns
import Keyplan.Terminal.Mode
import Keyplan.Terminal.Pen
import Keyplan.Terminal.Sequence
import Keyplan.Terminal.Wrap
import Keyplan.Text
import Keyplan.Text.Blank
import Keyplan.Text.Cluster
import Keyplan.Text.ClusterClass
import Keyplan.Text.Lines
import Keyplan.Text.LowerCase
import Keyplan.Text.Printable
import Keyplan.Text.Quoted
import Keyplan.Text.Wide
import Keyplan.Token
import Keyplan.Token.Lexeme
import Keyplan.Token.Lexer
import Keyplan.Toml.Document
import Keyplan.Toml.Moment
import Keyplan.Toml.Parser
import Keyplan.Toml.Value
import Keyplan.Word
import Keyplan.Yaml
import Keyplan.Yaml.Resolution
import Keyplan.Yaml.Scalar
import Keyplan.Yaml.Timestamp
import Keyplan.Proofs.Golden.Strings
import Keyplan.Proofs.Golden.Artifacts
import Keyplan.Proofs.Golden.Documents
import Keyplan.Proofs.Golden.RoundTrip
import Keyplan.Proofs.Keymap.Isolation
import Keyplan.Proofs.Layout.Acceptance
import Keyplan.Proofs.Compilation.Defaults
import Keyplan.Proofs.Layer.Acceptance
import Keyplan.Proofs.Concatenation
import Keyplan.Proofs.Diagram.Document
import Keyplan.Proofs.Firmware.Capacity
import Keyplan.Proofs.Format.Alignment
import Keyplan.Proofs.OptionTable.Recording
import Keyplan.Proofs.Keymap.KeyNames
import Keyplan.Proofs.Keymap.Faults
import Keyplan.Proofs.Suggestion
import Keyplan.Proofs.Compilation.Suggestions
import Keyplan.Proofs.Firmware.References
import Keyplan.Proofs.Suggestion.Ranking
import Keyplan.Proofs.Suggestion.Similarity
import Keyplan.Proofs.Token.FileEnd
import Keyplan.Proofs.Grammar.Hull
import Keyplan.Proofs.Golden.Reading
import Keyplan.Proofs.Description.Rows
import Keyplan.Proofs.SourceLines
import Keyplan.Proofs.Joins

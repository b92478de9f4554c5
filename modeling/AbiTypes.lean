import AbiTypes.Builder
import AbiTypes.Command
import AbiTypes.Command.Help
import AbiTypes.Command.Option
import AbiTypes.Command.Path
import AbiTypes.Fault
import AbiTypes.Main
import AbiTypes.Markdown
import AbiTypes.Phrase
import AbiTypes.Proofs.Grammar
import AbiTypes.Proofs.Lexing
import AbiTypes.Proofs.Parsing
import AbiTypes.Reader
import AbiTypes.Reader.Progress
import AbiTypes.Recipe
import AbiTypes.Report
import AbiTypes.Report.Table
import AbiTypes.Scalar
import AbiTypes.Session
import AbiTypes.Store
import AbiTypes.Text.Decimal
import AbiTypes.Text.Integer
import AbiTypes.Text.Json
import AbiTypes.Text.Quoted
import AbiTypes.Text.Similarity
import AbiTypes.Text.Terminal
import AbiTypes.Text.Unprintable
import AbiTypes.Token
import AbiTypes.Traced
import AbiTypes.Ty
import AbiTypes.Ty.Literal
import AbiTypes.Ty.Print
import AbiTypes.Ty.Support
import AbiTypes.Ty.Walk
import AbiTypes.Version
import AbiTypes.Proofs.Reading
import AbiTypes.Proofs.RoundTrip
import AbiTypes.Proofs.Canonical
import AbiTypes.Proofs.Collision
import AbiTypes.Proofs.Viable
import AbiTypes.Proofs.Graph
import AbiTypes.Proofs.Attachment
import AbiTypes.Proofs.Growth
import AbiTypes.Proofs.Steps
import AbiTypes.Proofs.Placement
import AbiTypes.Proofs.Alike
import AbiTypes.Proofs.Omission
import AbiTypes.Proofs.Refusal
import AbiTypes.Proofs.Acyclicity
import AbiTypes.Proofs.Planting
import AbiTypes.Proofs.History
import AbiTypes.Proofs.Seclusion
import AbiTypes.Proofs.Documentation
import AbiTypes.Proofs.Parameter
import AbiTypes.Proofs.Events
import AbiTypes.Proofs.Overwriting
import AbiTypes.Proofs.Congruence
import AbiTypes.Proofs.Delimited
import AbiTypes.Proofs.Literals
import AbiTypes.Proofs.Versions
import AbiTypes.Proofs.Decoding
import AbiTypes.Proofs.Rendering
import AbiTypes.Proofs.Shape
import AbiTypes.Proofs.Verbosity
import AbiTypes.Proofs.Tables
import AbiTypes.Proofs.Widths

import IrSurvey.Text.Line
import IrSurvey.Text.Symbol
import IrSurvey.Text.Digit
import IrSurvey.Text.Bracket
import IrSurvey.Listing.Definition
import IrSurvey.Listing.Declaration
import IrSurvey.Listing.Literal
import IrSurvey.Listing.Assembly
import IrSurvey.Json.Basic
import IrSurvey.Json.Quoted
import IrSurvey.Json.Reader
import IrSurvey.Json.Writer
import IrSurvey.Metrics
import IrSurvey.Instruction.Basic
import IrSurvey.Instruction.Lowering
import IrSurvey.Code.Body
import IrSurvey.Code.CType
import IrSurvey.Code.Literal
import IrSurvey.Code.Source
import IrSurvey.Digest.Sha256
import IrSurvey.Report.Document
import IrSurvey.Exchange.Analysis
import IrSurvey.Exchange.Settings
import IrSurvey.Text.Offset
import IrSurvey.Yaml.Cell
import IrSurvey.Yaml.Quoted
import IrSurvey.Yaml.Token
import IrSurvey.Yaml.Block
import IrSurvey.Yaml.Plain
import IrSurvey.Yaml.Tag
import IrSurvey.Yaml.Layout
import IrSurvey.Yaml.Document
import IrSurvey.Yaml.Value
import IrSurvey.Files.Directory
import IrSurvey.Settings.Load
import IrSurvey.Tool.Arguments
import IrSurvey.Tool.Failure
import IrSurvey.Tool.Run
import IrSurvey.Main
import IrSurvey.Proofs.Text.Leading
import IrSurvey.Proofs.Text.Blank
import IrSurvey.Proofs.Text.Bracket
import IrSurvey.Proofs.Text.Line
import IrSurvey.Proofs.Text.Symbol
import IrSurvey.Proofs.Listing.Qualifier
import IrSurvey.Proofs.Listing.Header
import IrSurvey.Proofs.Listing.Definition
import IrSurvey.Proofs.Listing.Table
import IrSurvey.Proofs.Listing.Body
import IrSurvey.Proofs.Code.Body
import IrSurvey.Proofs.Listing.Comment
import IrSurvey.Proofs.Instruction.Line
import IrSurvey.Proofs.Listing.OneLine
import IrSurvey.Proofs.Code.Source
import IrSurvey.Proofs.Report.Document
import IrSurvey.Proofs.Report.Numbers
import IrSurvey.Proofs.Marker.Counts
import IrSurvey.Proofs.Listing.Payload
import IrSurvey.Proofs.Json.Quoted
import IrSurvey.Proofs.Json.Token
import IrSurvey.Proofs.Json.Reader
import IrSurvey.Proofs.Exchange.Listing
import IrSurvey.Proofs.Exchange.Analysis
import IrSurvey.Proofs.Files.Directory
import IrSurvey.Proofs.Tool.Arguments
import IrSurvey.Proofs.Tool.Run
import IrSurvey.Proofs.Code.Literal
import IrSurvey.Proofs.Listing.Literal
import IrSurvey.Proofs.Code.CType
import IrSurvey.Proofs.Listing.Label
import IrSurvey.Proofs.Text.TopLevel
import IrSurvey.Proofs.Listing.Parameter
import IrSurvey.Proofs.Listing.Canonical
import IrSurvey.Proofs.Code.Placement
import IrSurvey.Proofs.Text.Word
import IrSurvey.Proofs.Text.Named
import IrSurvey.Proofs.Instruction.Parts
import IrSurvey.Proofs.Instruction.Operand
import IrSurvey.Proofs.Instruction.Operation
import IrSurvey.Proofs.Instruction.Callee
import IrSurvey.Proofs.Instruction.Quotes
import IrSurvey.Proofs.Instruction.Attachment
import IrSurvey.Proofs.Instruction.Call
import IrSurvey.Proofs.Instruction.Front
import IrSurvey.Proofs.Listing.Binding
import IrSurvey.Proofs.Listing.Declaration
import IrSurvey.Proofs.Listing.Naming
import IrSurvey.Proofs.Text.Place
import IrSurvey.Proofs.Marker.Fold
import IrSurvey.Proofs.Marker.Found
import IrSurvey.Proofs.Marker.Phrase
import IrSurvey.Proofs.Marker.Places
import IrSurvey.Proofs.Code.Aggregate
import IrSurvey.Proofs.Code.Escape
import IrSurvey.Proofs.Code.Signature
import IrSurvey.Proofs.Json.Spelling
import IrSurvey.Proofs.Yaml.Line
import IrSurvey.Proofs.Yaml.Plain
import IrSurvey.Proofs.Yaml.Quoted
import IrSurvey.Proofs.Yaml.Scalar
import IrSurvey.Proofs.Yaml.Document
import IrSurvey.Proofs.Yaml.Layout
import IrSurvey.Proofs.Yaml.Mapping
import IrSurvey.Proofs.Settings.Content
import IrSurvey.Proofs.Settings.Load
import IrSurvey.Proofs.Text.Offset
import IrSurvey.Proofs.Instruction.Rule
import IrSurvey.Proofs.Instruction.Kind

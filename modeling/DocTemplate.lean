import DocTemplate.Assembly
import DocTemplate.Backend.Basic
import DocTemplate.Backend.Blocks
import DocTemplate.Backend.Html
import DocTemplate.Backend.Registry
import DocTemplate.Block
import DocTemplate.Chunk
import DocTemplate.CommandLine.Arguments
import DocTemplate.CommandLine.Extras
import DocTemplate.CommandLine.Folder
import DocTemplate.CommandLine.Run
import DocTemplate.Compile.Error
import DocTemplate.Compile.Session
import DocTemplate.Compile.Template
import DocTemplate.Composer
import DocTemplate.Configuration.Basic
import DocTemplate.Configuration.Layer
import DocTemplate.Configuration.Setting
import DocTemplate.Data.Placeholder
import DocTemplate.Data.Store
import DocTemplate.Decimal.Binary
import DocTemplate.Decimal.Reading
import DocTemplate.Decimal.Shortest
import DocTemplate.Diagnostic
import DocTemplate.Dictionary
import DocTemplate.Element
import DocTemplate.Html.Node
import DocTemplate.Html.Options
import DocTemplate.Html.Page
import DocTemplate.Html.Renderer
import DocTemplate.Html.Sink
import DocTemplate.Json.Error
import DocTemplate.Json.Number
import DocTemplate.Json.Parser
import DocTemplate.Json.Printer
import DocTemplate.Json.Token
import DocTemplate.Json.Value
import DocTemplate.Main
import DocTemplate.Markup.Attribute
import DocTemplate.Markup.Cursor
import DocTemplate.Markup.Error
import DocTemplate.Markup.Event
import DocTemplate.Markup.Piece
import DocTemplate.Markup.Reader
import DocTemplate.Markup.Reference
import DocTemplate.Outcome
import DocTemplate.Page
import DocTemplate.Proofs.Accepting
import DocTemplate.Proofs.Alike
import DocTemplate.Proofs.BackendErrors
import DocTemplate.Proofs.BlockBoundary
import DocTemplate.Proofs.BlockText
import DocTemplate.Proofs.CallProtocol
import DocTemplate.Proofs.Collapsing
import DocTemplate.Proofs.Comments
import DocTemplate.Proofs.CompileCommand
import DocTemplate.Proofs.Composing
import DocTemplate.Proofs.Conservation
import DocTemplate.Proofs.Course
import DocTemplate.Proofs.Cutting
import DocTemplate.Proofs.DataFile
import DocTemplate.Proofs.Declarations
import DocTemplate.Proofs.Depth
import DocTemplate.Proofs.FileExtension
import DocTemplate.Proofs.Forest
import DocTemplate.Proofs.Fragments
import DocTemplate.Proofs.FullSink
import DocTemplate.Proofs.Inheritance
import DocTemplate.Proofs.Insertion
import DocTemplate.Proofs.Items
import DocTemplate.Proofs.JsonReading
import DocTemplate.Proofs.JsonTokens
import DocTemplate.Proofs.Lifecycle
import DocTemplate.Proofs.Lookups
import DocTemplate.Proofs.Masking
import DocTemplate.Proofs.Nesting
import DocTemplate.Proofs.Overriding
import DocTemplate.Proofs.PageHead
import DocTemplate.Proofs.Placement
import DocTemplate.Proofs.Printing
import DocTemplate.Proofs.Pulling
import DocTemplate.Proofs.Reaction
import DocTemplate.Proofs.Refusal
import DocTemplate.Proofs.Registrations
import DocTemplate.Proofs.Rejection
import DocTemplate.Proofs.Replay
import DocTemplate.Proofs.Reports
import DocTemplate.Proofs.Run
import DocTemplate.Proofs.ShownFonts
import DocTemplate.Proofs.ShownTable
import DocTemplate.Proofs.Siblings
import DocTemplate.Proofs.SplittingExtras
import DocTemplate.Proofs.Structure
import DocTemplate.Proofs.TableCells
import DocTemplate.Proofs.TableLayout
import DocTemplate.Proofs.TableReports
import DocTemplate.Proofs.Tokens
import DocTemplate.Proofs.TranscriptReading
import DocTemplate.Proofs.UniqueKeys
import DocTemplate.Proofs.ValueChunks
import DocTemplate.Renderer.Basic
import DocTemplate.Renderer.Call
import DocTemplate.Renderer.Recorder
import DocTemplate.Renderer.Transcript
import DocTemplate.Table
import DocTemplate.Text.Blank
import DocTemplate.Text.Collapse
import DocTemplate.Text.Numeral
import DocTemplate.Text.Utf8
import DocTemplate.Toml.Moment
import DocTemplate.Toml.Number
import DocTemplate.Toml.Reader
import DocTemplate.Toml.Text
import DocTemplate.Toml.Tree
import DocTemplate.Toml.Value

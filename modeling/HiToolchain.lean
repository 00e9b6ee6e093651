import HiToolchain.Binary64.Basic
import HiToolchain.Binary64.Elementary
import HiToolchain.Binary64.Portable
import HiToolchain.Binary64.Power
import HiToolchain.Cli.Actions
import HiToolchain.Cli.App
import HiToolchain.Cli.Flags
import HiToolchain.Cli.Help
import HiToolchain.Cli.Host
import HiToolchain.Cli.World
import HiToolchain.Cursor
import HiToolchain.Decimal.Notation
import HiToolchain.Decimal.Shortest
import HiToolchain.Dump
import HiToolchain.Fault
import HiToolchain.Ir.Lower
import HiToolchain.Ir.Module
import HiToolchain.Ir.Print
import HiToolchain.Kinds.Declaration
import HiToolchain.Kinds.Enumeration
import HiToolchain.Kinds.Lexeme
import HiToolchain.Kinds.Number
import HiToolchain.Kinds.Token
import HiToolchain.Main
import HiToolchain.Manifest
import HiToolchain.Number
import HiToolchain.Outline
import HiToolchain.Parse
import HiToolchain.Position
import HiToolchain.Run
import HiToolchain.Scale
import HiToolchain.Scan
import HiToolchain.Session
import HiToolchain.Text.Base64
import HiToolchain.Text.Digits
import HiToolchain.Text.Hex
import HiToolchain.Text.Letter
import HiToolchain.Text.Printable
import HiToolchain.Text.Quoted
import HiToolchain.Text.Ranges
import HiToolchain.Text.StringLiteral
import HiToolchain.Text.Utf8
import HiToolchain.Token
import HiToolchain.Tree
import HiToolchain.Visit
import HiToolchain.Yaml.Block
import HiToolchain.Yaml.Chars
import HiToolchain.Yaml.Decode
import HiToolchain.Yaml.Doc
import HiToolchain.Yaml.Fault
import HiToolchain.Yaml.Gap
import HiToolchain.Yaml.Input
import HiToolchain.Yaml.Node
import HiToolchain.Yaml.Plain
import HiToolchain.Yaml.QuotedScalar
import HiToolchain.Yaml.Resolve
import HiToolchain.Yaml.Scalar
import HiToolchain.Yaml.Tag
import HiToolchain.Yaml.Timestamp
import HiToolchain.Yaml.Token
import HiToolchain.Yaml.Tokens
import HiToolchain.Proofs.ParserRefinement
import HiToolchain.Proofs.Grammar
import HiToolchain.Proofs.Layout
import HiToolchain.Proofs.Lowering
import HiToolchain.Proofs.LogicalText
import HiToolchain.Proofs.CursorIndex
import HiToolchain.Proofs.Munch
import HiToolchain.Proofs.Tokenization
import HiToolchain.Proofs.Offsets
import HiToolchain.Proofs.LineEndings
import HiToolchain.Proofs.Rejection
import HiToolchain.Proofs.FirstMisfit
import HiToolchain.Proofs.MarkDiscipline
import HiToolchain.Proofs.Rounding
import HiToolchain.Proofs.LiteralRange
import HiToolchain.Proofs.WholeDecimals
import HiToolchain.Proofs.PrintedWholes
import HiToolchain.Proofs.TreeTokens
import HiToolchain.Proofs.NodeSpans
import HiToolchain.Proofs.Concatenation
import HiToolchain.Proofs.OutputPrefix
import HiToolchain.Proofs.StringTable
import HiToolchain.Proofs.Nearest
import HiToolchain.Proofs.LiteralValues
import HiToolchain.Proofs.ShortestDecimals
import HiToolchain.Proofs.DecimalReading
import HiToolchain.Proofs.NumberTexts
import HiToolchain.Proofs.JavaScriptNotation
import HiToolchain.Proofs.SingleAssignment
import HiToolchain.Proofs.Progress
import HiToolchain.Proofs.EndMark
import HiToolchain.Proofs.Rereading
import HiToolchain.Proofs.ScalarTexts
import HiToolchain.Proofs.OutlineDecoding
import HiToolchain.Proofs.FaultPlaces
import HiToolchain.Proofs.SelectiveWalks
import HiToolchain.Proofs.CanonicalText
import HiToolchain.Proofs.FoldedText
import HiToolchain.Proofs.FlowScalars
import HiToolchain.Proofs.BlockScalars
import HiToolchain.Proofs.FieldTokens
import HiToolchain.Proofs.MappingText
import HiToolchain.Proofs.ManifestFile
import HiToolchain.Proofs.WholePowers
import HiToolchain.Proofs.PowerCalls
import HiToolchain.Proofs.ByteSequences
import HiToolchain.Proofs.SourceBytes
import HiToolchain.Proofs.StringLiterals
import HiToolchain.Proofs.KindTokens
import HiToolchain.Proofs.FileWords
import HiToolchain.Proofs.EnumerationFile
import HiToolchain.Proofs.EnumerationMeaning

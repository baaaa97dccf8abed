import Lox.Binary64
import Lox.Binary64.Decimal
import Lox.Binary64.Shortest
import Lox.Collector
import Lox.CommandLine
import Lox.CommandLine.Item
import Lox.Cursor
import Lox.Diagnostic
import Lox.Dump
import Lox.FileTree
import Lox.Json
import Lox.Keyword
import Lox.LanguageServer
import Lox.Main
import Lox.Numeral
import Lox.Operator
import Lox.Options
import Lox.Path
import Lox.Program
import Lox.Scan
import Lox.Segment
import Lox.Session
import Lox.Text.Blank
import Lox.Text.DecimalDigit
import Lox.Text.Lines
import Lox.Text.Printable
import Lox.Text.Quoted
import Lox.Text.Ranges
import Lox.Text.Split
import Lox.Text.Utf8
import Lox.Token
import Lox.Toml.Document
import Lox.Toml.Number
import Lox.Toml.Quoted
import Lox.Toml.Reader
import Lox.Toml.Time
import Lox.Toml.Value
import Lox.Transcript
import Lox.Cursor.Reading
import Lox.Proofs.Passes
import Lox.Proofs.LineNumbers
import Lox.Proofs.LexicalClass
import Lox.Proofs.MaximalMunch
import Lox.Proofs.Watcher
import Lox.Proofs.Layout
import Lox.Proofs.Seams
import Lox.Proofs.SessionLines
import Lox.Proofs.Resumption
import Lox.Proofs.Operations
import Lox.Proofs.Driving
import Lox.Proofs.SessionCourse
import Lox.Proofs.Utf8Text
import Lox.Proofs.RunContract
import Lox.Proofs.Digits
import Lox.Proofs.Rounding
import Lox.Proofs.ShortestText
import Lox.Proofs.JsonReader
import Lox.Proofs.StructuredDump
import Lox.Proofs.ContextBlock
import Lox.Proofs.Publications
import Lox.Proofs.Edits
import Lox.Proofs.Recovery
import Lox.Proofs.InertText
import Lox.Proofs.Lookahead
import Lox.Proofs.StringBodies
import Lox.Proofs.LineEnds
import Lox.Proofs.TextDump
import Lox.Proofs.BinaryFormat
import Lox.Proofs.NumberLiterals
import Lox.Proofs.RenderedNumbers
import Lox.Proofs.JsonGrammar
import Lox.Proofs.OptionResolution
import Lox.Proofs.RejoinedLines
import Lox.Proofs.LosslessBlocks
import Lox.Proofs.PublishedRanges
import Lox.Proofs.ScriptBytes
import Lox.Proofs.BlankReads
import Lox.Proofs.WrittenArguments
import Lox.Proofs.BasicStrings
import Lox.Proofs.DocumentLines
import Lox.Proofs.InterchangeableOptions

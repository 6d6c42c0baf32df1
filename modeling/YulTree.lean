import YulTree.Code.Basic
import YulTree.Code.Block
import YulTree.Code.Payload
import YulTree.Context
import YulTree.Json
import YulTree.Object.Attach
import YulTree.Object.Basic
import YulTree.Object.Json
import YulTree.Object.Path
import YulTree.Object.Printer
import YulTree.Object.SourceIndex
import YulTree.Object.Store
import YulTree.Object.Summary
import YulTree.Ordered.Key
import YulTree.Ordered.Map
import YulTree.Proofs.Code.Edited
import YulTree.Proofs.Code.Enclosed
import YulTree.Proofs.Code.Layout
import YulTree.Proofs.Code.Normal
import YulTree.Proofs.Code.Printed
import YulTree.Proofs.Code.Substance
import YulTree.Proofs.Object.Agreement
import YulTree.Proofs.Object.Assembled
import YulTree.Proofs.Object.Built
import YulTree.Proofs.Object.Contiguous
import YulTree.Proofs.Object.Index
import YulTree.Proofs.Object.Inheritance
import YulTree.Proofs.Object.Listed
import YulTree.Proofs.Object.Merge
import YulTree.Proofs.Object.Names
import YulTree.Proofs.Object.Passage
import YulTree.Proofs.Object.Reread
import YulTree.Proofs.Object.Resolution
import YulTree.Proofs.Object.RoundTrip
import YulTree.Proofs.Object.Store
import YulTree.Proofs.Reader.Assembled
import YulTree.Proofs.Reader.Derivation
import YulTree.Proofs.Reader.Dialect
import YulTree.Proofs.Reader.Earliest
import YulTree.Proofs.Reader.Grammar
import YulTree.Proofs.Reader.HexData
import YulTree.Proofs.Reader.InRange
import YulTree.Proofs.Reader.Layout
import YulTree.Proofs.Reader.Limit
import YulTree.Proofs.Reader.LineEnding
import YulTree.Proofs.Reader.Nested
import YulTree.Proofs.Reader.Printed
import YulTree.Proofs.Reader.Ranged
import YulTree.Proofs.Reader.Resume
import YulTree.Proofs.Reader.Soundness
import YulTree.Proofs.Reader.Stable
import YulTree.Proofs.Reader.Stage
import YulTree.Proofs.Reader.Substance
import YulTree.Proofs.Reader.Transfer
import YulTree.Proofs.Reader.Unambiguous
import YulTree.Proofs.Reader.Unfinished
import YulTree.Proofs.Reader.Verdict
import YulTree.Proofs.Selection.Parser
import YulTree.Proofs.Selection.Rewording
import YulTree.Proofs.Source.Listing
import YulTree.Proofs.Source.Location
import YulTree.Proofs.Source.Snippet
import YulTree.Proofs.Source.Table
import YulTree.Proofs.Text.Encode
import YulTree.Proofs.Text.Escape
import YulTree.Proofs.Text.HexSpelling
import YulTree.Proofs.Text.Indent
import YulTree.Proofs.Text.LineEnding
import YulTree.Proofs.Text.Segment
import YulTree.Proofs.Text.Slice
import YulTree.Proofs.Text.Trim
import YulTree.Proofs.Token.Ahead
import YulTree.Proofs.Token.Balance
import YulTree.Proofs.Token.Brace
import YulTree.Proofs.Token.Cut
import YulTree.Proofs.Token.Joint
import YulTree.Proofs.Token.LineEnding
import YulTree.Proofs.Token.Literal
import YulTree.Proofs.Token.Mode
import YulTree.Proofs.Token.Ranges
import YulTree.Proofs.Token.Respaced
import YulTree.Proofs.Token.Row
import YulTree.Proofs.Token.Shape
import YulTree.Proofs.Token.Substance
import YulTree.Proofs.Token.Tiling
import YulTree.Proofs.Token.Within
import YulTree.Reader.Error
import YulTree.Reader.Ranged
import YulTree.Reader.Read
import YulTree.Reader.State
import YulTree.Reader.Step
import YulTree.Report.Excerpt
import YulTree.Report.Render
import YulTree.Report.Row
import YulTree.Report.Window
import YulTree.Selection.Basic
import YulTree.Selection.Parser
import YulTree.Source.Pragma
import YulTree.Source.Snippet
import YulTree.Source.Table
import YulTree.Text.Basic
import YulTree.Text.CharClass
import YulTree.Text.Columns
import YulTree.Text.Decimal
import YulTree.Text.Echo
import YulTree.Text.GraphemeExtend
import YulTree.Text.Hex
import YulTree.Text.Lines
import YulTree.Text.Quoted
import YulTree.Text.Trim
import YulTree.Text.Unprintable
import YulTree.Text.Utf8
import YulTree.Token.Basic
import YulTree.Token.Lexeme
import YulTree.Token.Packed
import YulTree.Token.Piece
import YulTree.Token.Scan

import YulTree.Object.Attach
import YulTree.Source.Pragma

/-!
# Errors of the reader

Why a source is no tree, and where in the source this shows.
-/

namespace YulTree

inductive Expected where
  | objectOrBlock
  | object
  | objectName
  | openBrace
  | item
  | dataName
  | dataValue
  | literal
  | endOfInput
  deriving DecidableEq, Repr

def Expected.description : Expected → Text
  | .objectOrBlock => "'object' or '\x7b'"
  | .object => "'object'"
  | .objectName => "object name"
  | .openBrace => "'\x7b'"
  | .item => "'object', 'data' or '\x7d'"
  | .dataName => "data name"
  | .dataValue => "data value"
  | .literal => "hex or string literal"
  | .endOfInput => "end of input"

inductive ReadFault where
  | unexpectedToken (expected : Expected) (found : TokenKind)
  | unexpectedEnd (expected : Expected)
  | unclosedBlock
  | oddHexDigits
  | badEscape (escape : Text)
  | nameNotText
  | badPragma (fault : PragmaFault)
  | tooDeep (limit : Nat)
  | attach (error : AttachError)
  deriving DecidableEq, Repr

def ReadFault.message : ReadFault → Text
  | .unexpectedToken expected found =>
      "expected " ++ expected.description ++ ", found " ++ found.description
  | .unexpectedEnd expected => "expected " ++ expected.description ++ ", found end of input"
  | .unclosedBlock => "unclosed block"
  | .oddHexDigits => "invalid hex literal: Odd number of digits"
  | .badEscape escape => "invalid escape sequence " ++ Text.echo escape
  | .nameNotText => "name is not valid UTF-8"
  | .badPragma fault => "invalid @use-src comment: " ++ fault.message
  | .tooDeep limit => "objects nested deeper than " ++ Text.ofNat limit ++ " levels"
  | .attach error => error.message

/-- A fault, and the part of the source that shows it. -/
structure ReadError where
  fault : ReadFault
  span : Span
  deriving DecidableEq, Repr

/-- The range that is marked for a span: at least one byte, unless the source ends there. -/
def Report.markedSpan (source : Text) (span : Span) : Span :=
  if span.start = span.stop then ⟨span.start, min (span.start + 1) source.byteSize⟩ else span

end YulTree

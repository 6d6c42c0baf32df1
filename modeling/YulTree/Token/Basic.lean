import YulTree.Text.Trim

/-!
# Tokens

The kinds of tokens that the text of a tree is made of, and tokens with their places in a
source.
-/

namespace YulTree

structure Span where
  start : Nat
  stop : Nat
  deriving DecidableEq, Repr

def Span.at (position : Nat) : Span := ⟨position, position⟩

/-- The kinds of tokens.  A `pragma` is a comment that lists sources; `garbage` is input that
belongs to no other kind. -/
inductive TokenKind where
  | openBrace
  | closeBrace
  | objectKeyword
  | codeKeyword
  | dataKeyword
  | hexLiteral
  | stringLiteral
  | identifier
  | number
  | punctuation
  | whitespace
  | lineComment
  | blockComment
  | pragma
  | garbage
  deriving DecidableEq, Repr

namespace TokenKind

/-- Blank space and plain comments have no meaning outside code bodies. -/
def isTrivia : TokenKind → Bool
  | .whitespace | .lineComment | .blockComment => true
  | _ => false

def description : TokenKind → Text
  | .openBrace => "'\x7b'"
  | .closeBrace => "'\x7d'"
  | .objectKeyword => "'object'"
  | .codeKeyword => "'code'"
  | .dataKeyword => "'data'"
  | .hexLiteral => "hex literal"
  | .stringLiteral => "string literal"
  | .identifier => "identifier"
  | .number => "number"
  | .punctuation => "punctuation"
  | .whitespace => "whitespace"
  | .lineComment | .blockComment => "comment"
  | .pragma => "'@use-src' comment"
  | .garbage => "unexpected input"

end TokenKind

/-- A token: its kind, its text, and the byte position at which it starts. -/
structure Token where
  kind : TokenKind
  text : Text
  start : Nat
  deriving DecidableEq, Repr

namespace Token

def stop (token : Token) : Nat := token.start + token.text.byteSize

def span (token : Token) : Span := ⟨token.start, token.stop⟩

end Token

/-- The list of sources in a comment, which is a pragma only if it has three slashes followed
by the pragma's name. -/
def pragmaPayload? (comment : Text) : Option Text := do
  let content ← Text.dropPrefix? "///" comment
  Text.dropPrefix? "@use-src" (Text.trimStart content)

end YulTree

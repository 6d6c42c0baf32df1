import YulTree.Token.Scan

/-!
# Stored tokens

Tokens without their texts, which are found in one pass over the pieces of a source: a token is
stored as its kind and the places of its first byte and of the one behind it, as 32-bit words.
-/

namespace YulTree.Token

/-- A token as it is stored: its kind, and its place as two 32-bit words. -/
structure Packed where
  kind : TokenKind
  start : UInt32
  stop : UInt32

def Packed.of (kind : TokenKind) (start stop : Nat) : Packed :=
  ⟨kind, UInt32.ofNat start, UInt32.ofNat stop⟩

def pack (token : Token) : Packed := .of token.kind token.start token.stop

def Packed.span (packed : Packed) : Span := ⟨packed.start.toNat, packed.stop.toNat⟩

def Packed.token? (source : Text) (packed : Packed) : Option Token :=
  (source.range? packed.span.start packed.span.stop).map fun text =>
    ⟨packed.kind, text, packed.span.start⟩

def flush (pending : Option Nat) (stop : Nat) : List Packed :=
  (pending.map fun start => Packed.of .garbage start stop).toList

/-- The tokens of the pieces from a position on, of a source of some size.  Of garbage that no
token has ended yet, only the start is `pending`. -/
def sweep (size position : Nat) (pending : Option Nat) : List Piece → List Packed
  | [] => flush pending size
  | ⟨some kind, text⟩ :: rest =>
      flush pending position ++ .of kind position (position + text.byteSize) ::
        sweep size (position + text.byteSize) none rest
  | ⟨none, text⟩ :: rest =>
      sweep size (position + text.byteSize) (some (pending.getD position)) rest

end YulTree.Token

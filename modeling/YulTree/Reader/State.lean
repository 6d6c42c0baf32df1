import YulTree.Reader.Error
import YulTree.Token.Lexeme

/-!
# States of the reader

What the reader knows between two tokens: the objects that are still open, innermost first,
and what may come next in the innermost one.
-/

namespace YulTree

/-- What a reader is asked for: how many objects may be open at once, and which payload a code
body becomes. -/
structure Reader (κ : Type) where
  limit : Nat
  payload : Text → κ

namespace Reader

/-- An object whose closing brace has not been read, and the places of its name and of its
opening brace. -/
structure Level (κ : Type) where
  object : Object κ
  nameSpan : Span
  braceSpan : Span

/-- A code block whose closing brace has not been read: the place of its opening brace, the
number of braces that are open inside, and the parts of its body, last first. -/
structure OpenBlock where
  braceSpan : Span
  depth : Nat
  parts : List Text
  deriving DecidableEq, Repr

/-- What has been read so far. -/
inductive State (κ : Type) where
  /-- Nothing, or a pragma. -/
  | start (pragma : Option SourceTable)
  /-- The beginning of a code block that is not inside an object. -/
  | loneBlock (pragma : Option SourceTable) (block : OpenBlock)
  /-- An object's keyword. -/
  | keyword (pragma : Option SourceTable) (outer : List (Level κ))
  /-- An object's name. -/
  | name (pragma : Option SourceTable) (name : Text) (nameSpan : Span)
      (outer : List (Level κ))
  /-- An object's opening brace. -/
  | opened (level : Level κ) (outer : List (Level κ))
  /-- The keyword of an object's code. -/
  | codeKeyword (level : Level κ) (outer : List (Level κ))
  /-- The beginning of an object's code. -/
  | code (block : OpenBlock) (level : Level κ) (outer : List (Level κ))
  /-- Some items of an object. -/
  | items (level : Level κ) (outer : List (Level κ))
  /-- A pragma in front of a nested object. -/
  | pragma (table : SourceTable) (level : Level κ) (outer : List (Level κ))
  /-- The keyword of a byte string. -/
  | dataKeyword (level : Level κ) (outer : List (Level κ))
  /-- The name of a byte string. -/
  | dataName (name : Text) (nameSpan : Span) (level : Level κ) (outer : List (Level κ))
  /-- A whole object. -/
  | finished (object : Object κ)

namespace OpenBlock

/-- A block of which only the opening brace has been read. -/
def start (braceSpan : Span) : OpenBlock := ⟨braceSpan, 0, []⟩

def body (block : OpenBlock) : Text := block.parts.reverse.flatten

def push (block : OpenBlock) (part : Text) : OpenBlock :=
  { block with parts := part :: block.parts }

@[simp]
theorem body_push (block : OpenBlock) (part : Text) :
    (block.push part).body = block.body ++ part := by
  simp [body, push]

end OpenBlock

end Reader

end YulTree

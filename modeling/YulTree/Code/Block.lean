import YulTree.Json
import YulTree.Text.Lines
import YulTree.Text.Trim

/-!
# Code blocks

The code of an object, kept as lines of text.  The lines do not depend on how far the code was
indented where it was read: outer blank lines are dropped, and so is the indentation that all
lines have in common.
-/

namespace YulTree

structure Block where
  lines : List Text
  deriving DecidableEq, Repr

namespace Block

def leadingBlanks (line : Text) : Nat :=
  (line.takeWhile fun c => c == ' ' || c == '\t').length

/-- The least of a list of numbers, and zero for no numbers. -/
def least : List Nat → Nat
  | [] => 0
  | [n] => n
  | n :: rest => Nat.min n (least rest)

/-- The indentation that all lines have in common; empty lines do not count. -/
def commonIndent (lines : List Text) : Nat :=
  least ((lines.filter fun line => !line.isEmpty).map leadingBlanks)

def dropOuterBlank (lines : List Text) : List Text :=
  dropTrailing List.isEmpty (lines.dropWhile List.isEmpty)

/-- The lines of a code body.  What stands on the line of the opening brace has no
indentation of its own, and makes a line only if it is not blank. -/
def normalize (body : Text) : List Text :=
  match (Text.lines body).map Text.trimEnd with
  | [] => []
  | head :: rest =>
      let first := Text.trimStart head
      let indent := commonIndent rest
      dropOuterBlank
        ((if first.isEmpty then [] else [first]) ++ rest.map fun line => line.drop indent)

def ofBody (body : Text) : Block := ⟨normalize body⟩

def text (block : Block) : Text := Text.ofLines block.lines

def isEmpty (block : Block) : Bool := block.lines.isEmpty

def render (block : Block) : Text :=
  if block.isEmpty then "\x7b \x7d"
  else "\x7b\n" ++ Text.indent block.text ++ "\n\x7d"

def toJson (block : Block) : Json :=
  .object [("nodeType", .string "YulBlock"), ("text", .string block.text)]

end Block

end YulTree

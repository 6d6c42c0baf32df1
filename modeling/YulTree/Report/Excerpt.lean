import YulTree.Text.Columns
import YulTree.Text.Lines
import YulTree.Text.Trim
import YulTree.Token.Basic

/-!
# Lines and columns

A source as numbered lines, and the places in them where a range of bytes begins and ends.
Columns are counted as they are seen on a terminal, for sources of single-width characters.
-/

namespace YulTree

/-- A line of a source: its text, the byte positions at which it starts and at which the next
one starts, and the number of bytes that end it. -/
structure SourceLine where
  text : Text
  start : Nat
  stop : Nat
  endSize : Nat
  deriving DecidableEq, Repr

namespace SourceLine

/-- A line that ends in a line feed; a carriage return in front of it belongs to the end. -/
def ofFed (start : Nat) (text : Text) : SourceLine :=
  let stop := start + text.byteSize + 1
  if text.getLast? = some '\r' then ⟨text.dropLast, start, stop, 2⟩
  else ⟨text, start, stop, 1⟩

/-- The lines that the parts between line feeds make, from a byte position on. -/
def ofParts (start : Nat) : List Text → List SourceLine
  | [] => []
  | [last] => if last.isEmpty then [] else [⟨last, start, start + last.byteSize, 0⟩]
  | part :: rest => ofFed start part :: ofParts (ofFed start part).stop rest

/-- The lines of a source; an empty source has one empty line. -/
def ofSource (source : Text) : List SourceLine :=
  if source.isEmpty then [⟨[], 0, 0, 0⟩] else ofParts 0 (Text.lines source)

def showChar (c : Char) : Text :=
  if c = '\t' then "    "
  else if c.toNat < 0x20 then [Char.ofNat (0x2400 + c.toNat)]
  else if c.toNat = 0x7f then [Char.ofNat 0x2421]
  else [c]

def shown (line : SourceLine) : Text := line.text.flatMap showChar

def charsBefore (line : SourceLine) (position : Nat) : Text :=
  line.text.take (position - line.start)

/-- Whether a line says nothing: it is blank, a plain comment, or a single bracket. -/
def isIdle (line : SourceLine) : Bool :=
  let content := Text.trim line.text
  let isComment := "//".toList.isPrefixOf content &&
    !("///".toList.isPrefixOf content || "//!".toList.isPrefixOf content)
  isComment || content.isEmpty ||
    (content.length == 1 && content.all "\x7b\x7d()[]".toList.contains)

end SourceLine

/-- A place in a source: the index of its line, the characters in front of it on the line, and
the columns that they take up. -/
structure Place where
  line : Nat
  char : Nat
  column : Nat
  deriving DecidableEq, Repr

namespace Place

/-- The index of the line with a byte position, and the last line for positions behind it. -/
def lineIndex (lines : List SourceLine) (position : Nat) : Nat :=
  (lines.findIdx? fun line => line.start ≤ position && position < line.stop).getD
    (lines.length - 1)

def ofPosition (lines : List SourceLine) (position : Nat) : Place :=
  let index := lineIndex lines position
  match lines[index]? with
  | none => ⟨index, 0, 0⟩
  | some line =>
      let before := line.charsBefore position
      ⟨index, before.length, before.width⟩

end Place

structure Extent where
  first : Place
  last : Place
  deriving DecidableEq, Repr

namespace Extent

/-- Whether a byte position lies behind the text of its line. -/
def isBehindText (lines : List SourceLine) (index position : Nat) : Bool :=
  match lines[index]? with
  | none => false
  | some line => line.stop - line.endSize < position

/-- The place at which a range ends.  On a line of its own it may lie behind the text. -/
def lastPlace (lines : List SourceLine) (first : Place) (span : Span) : Place :=
  let last := Place.ofPosition lines span.stop
  if first.line ≠ last.line && isBehindText lines last.line span.stop then
    { last with char := last.char + 1, column := last.column + 1 }
  else if first.line = last.line && first.column = last.column then
    { last with column := last.column + 1 }
  else last

/-- The extent of a range of bytes, at least one column wide. -/
def ofSpan (lines : List SourceLine) (span : Span) : Extent :=
  let first := Place.ofPosition lines span.start
  ⟨first, lastPlace lines first span⟩

/-- The number of the column at which a range begins, for the reader of a report. -/
def columnNumber (lines : List SourceLine) (extent : Extent) (span : Span) : Nat :=
  if isBehindText lines extent.first.line span.start then extent.first.char + 2
  else extent.first.char + 1

end Extent

end YulTree

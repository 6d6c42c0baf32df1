import YulTree.Ordered.Map

/-!
# Source texts and snippets

The texts of the sources, and the short excerpts of them that are shown beside a location.
-/

namespace YulTree

structure SourceFile where
  name : Text
  content : Text
  deriving DecidableEq, Repr

/-- The sources at hand. -/
abbrev SourceTexts : Type := OrderedMap UInt32 SourceFile

/-- What gives the texts of sources to a printer. -/
abbrev SourceProvider : Type := UInt32 → Option Text

def SourceTexts.provider (texts : SourceTexts) : SourceProvider := fun index =>
  (texts.get? index).map SourceFile.content

def SourceProvider.absent : SourceProvider := fun _ => none

namespace Text

/-- The length at which an excerpt is cut off, in characters. -/
def maxSnippetLength : Nat := 100

/-- An excerpt on one line: what stands before the first line break, as far as the greatest
length, with dots where something was cut off. -/
def shorten (excerpt : Text) : Text :=
  let shown := (excerpt.takeWhile fun c => c != '\n' && c != '\r').take maxSnippetLength
  if shown.length < excerpt.length then shown ++ "..." else shown

/-- The excerpt of a text between two byte positions, of which the second may lie beyond the
end.  There is none of an empty range, or where a position lies inside a character. -/
def snippet? (text : Text) (start stop : Nat) : Option Text :=
  if stop ≤ start ∨ text.byteSize ≤ start then none
  else (slice? start (min stop text.byteSize) text).map shorten

end Text

end YulTree

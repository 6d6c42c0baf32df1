import YulTree.Ordered.Map
import YulTree.Text.Decimal
import YulTree.Text.Quoted

/-!
# Tables of sources

A table gives a file name to each of the small indices by which code refers to its sources.
It is written as a pragma in front of an object.
-/

namespace YulTree

/-- Index by index, the name of a source. -/
abbrev SourceTable : Type := OrderedMap UInt32 Text

namespace SourceTable

def renderEntry (entry : UInt32 × Text) : Text :=
  Text.ofNat entry.1.toNat ++ ':' :: Text.Quoted.encode entry.2

def render (table : SourceTable) : Text :=
  "@use-src " ++ List.intercalate ", " (table.entries.map renderEntry)

end SourceTable

/-- What is known about the sources of an object. -/
structure DebugBundle where
  table : Option SourceTable
  deriving DecidableEq, Repr

/-- How the sources of an object are written: not at all without a table. -/
def DebugBundle.render (bundle : DebugBundle) : Text :=
  match bundle.table with
  | none => []
  | some table => table.render

end YulTree

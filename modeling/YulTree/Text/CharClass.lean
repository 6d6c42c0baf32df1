import YulTree.Text.Basic

/-!
# Classes of characters

A class of characters is given by ranges of code points.  The class of blank characters
stands here because all trimming depends on it.
-/

namespace YulTree.Text

/-- A set of characters, written as ranges of code points with both ends included. -/
structure CharClass where
  ranges : List (Nat × Nat)
  deriving DecidableEq, Repr

def CharClass.contains (members : CharClass) (c : Char) : Bool :=
  members.ranges.any fun range => range.1 ≤ c.toNat && c.toNat ≤ range.2

/-- The characters with the property `White_Space`. -/
def blank : CharClass where
  ranges :=
    [(0x09, 0x0d), (0x20, 0x20), (0x85, 0x85), (0xa0, 0xa0), (0x1680, 0x1680),
      (0x2000, 0x200a), (0x2028, 0x2029), (0x202f, 0x202f), (0x205f, 0x205f),
      (0x3000, 0x3000)]

end YulTree.Text

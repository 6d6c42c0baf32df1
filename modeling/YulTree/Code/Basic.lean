import YulTree.Context

/-!
# Code payloads

What trees ask of the code that their objects carry.  Trees hold payloads of any type that
answers these questions.
-/

namespace YulTree

/-- The dialect that code was checked against. -/
structure Dialect where
  name : Text
  deriving DecidableEq, Repr

/-- A type of code payloads. -/
class Code (κ : Type) where
  /-- The dialect of a payload, if it is known. -/
  dialect? : κ → Option Dialect
  /-- How a payload is written in a context, from brace to brace. -/
  print : Context → κ → Text
  toJson : κ → Json

end YulTree

import YulTree.Object.Basic
import YulTree.Text.Echo
import YulTree.Text.Trim

/-!
# Resolving qualified names

A qualified name is a row of names with dots between them, which lead from an object to one
below it.  It may begin with the object's own name.
-/

namespace YulTree

inductive PathError where
  | unresolved (path segment : Text)
  | throughData (path segment : Text)
  | toData (path : Text)
  deriving DecidableEq, Repr

def PathError.message : PathError → Text
  | .unresolved path segment =>
      "object " ++ Text.echo path ++ " not found: no node named " ++ Text.echo segment
  | .throughData path segment =>
      "object " ++ Text.echo path ++ " not found: data node " ++ Text.echo segment ++
        " has no children"
  | .toData path => Text.echo path ++ " names a data node, not an object"

namespace Object

variable {κ : Type}

def entry? (object : Object κ) (name : Text) : Option (Node κ × Nat) :=
  object.children.zipIdx.find? fun entry => entry.1.name == name

/-- A qualified name without the object's own name and the dot behind it. -/
def relativeName (object : Object κ) (path : Text) : Text :=
  (Text.dropPrefix? (object.name ++ ".") path).getD path

/-- The slots that a row of names leads through; `path` is the whole name, for messages. -/
def follow (path : Text) : List Text → Object κ → Except PathError (List Nat)
  | [], _ => .ok []
  | segment :: rest, object =>
      if segment = [] then .error (.unresolved path segment)
      else
        match object.entry? segment with
        | none => .error (.unresolved path segment)
        | some (.data _, _) =>
            if rest = [] then .error (.toData path) else .error (.throughData path segment)
        | some (.object nested, slot) => (follow path rest nested).map (slot :: ·)

/-- The path of slots to the object with a qualified name. -/
def pathTo (object : Object κ) (path : Text) : Except PathError (List Nat) :=
  if path = object.name then .ok []
  else follow path ((object.relativeName path).splitOn '.') object

end Object

end YulTree

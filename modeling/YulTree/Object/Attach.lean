import YulTree.Object.Basic
import YulTree.Text.Echo

/-!
# Attaching children

A child is appended to the children of an object if its name is not empty, differs from the
object's own name, and is not yet in use there.
-/

namespace YulTree

inductive AttachError where
  | emptyName (parent : Text)
  | shadowsParent (parent : Text)
  | duplicateName (parent name : Text)
  deriving DecidableEq, Repr

def AttachError.message : AttachError → Text
  | .emptyName parent => "nodes nested in object " ++ Text.echo parent ++ " must be named"
  | .shadowsParent parent =>
      "object " ++ Text.echo parent ++ " cannot contain a node with its own name"
  | .duplicateName parent name =>
      "object " ++ Text.echo parent ++ " already contains a node named " ++ Text.echo name

variable {κ : Type}

/-- A child that knows its slot. -/
def Node.inSlot (slot : Nat) : Node κ → Node κ
  | .data entry => .data entry
  | .object nested => .object { nested with slot := some slot }

namespace Object

/-- The object with one more child, in the slot behind the others. -/
def attach (parent : Object κ) (node : Node κ) : Except AttachError (Object κ) :=
  if node.name = [] then .error (.emptyName parent.name)
  else if node.name = parent.name then .error (.shadowsParent parent.name)
  else if parent.childNames.contains node.name then
    .error (.duplicateName parent.name node.name)
  else
    .ok { parent with children := parent.children ++ [node.inSlot parent.children.length] }

def attachAll (parent : Object κ) (nodes : List (Node κ)) : Except AttachError (Object κ) :=
  nodes.foldlM attach parent

end Object

end YulTree

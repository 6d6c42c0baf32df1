import YulTree.Code.Basic
import YulTree.Text.Utf8

/-!
# Trees of objects

An object has a name, may carry code, and has a list of children, which are named byte strings
and objects.  A path of slots, the positions in these lists, leads from an object to an object
below it.
-/

namespace YulTree

/-- A named byte string. -/
structure Data where
  name : Text
  bytes : Bytes
  deriving DecidableEq, Repr

mutual

/-- An object with code payloads of type `κ`.  The `analysis` goes with the code, and `slot`
is the position at which the object was last attached to another one. -/
structure Object (κ : Type) where
  name : Text
  code : Option κ
  analysis : Option Text
  debug : Option DebugBundle
  slot : Option Nat
  children : List (Node κ)

inductive Node (κ : Type) where
  | data (entry : Data)
  | object (nested : Object κ)

end

namespace Node

variable {κ : Type}

def name : Node κ → Text
  | .data entry => entry.name
  | .object nested => nested.name

def object? : Node κ → Option (Object κ)
  | .data _ => none
  | .object nested => some nested

def data? : Node κ → Option Data
  | .data entry => some entry
  | .object _ => none

end Node

namespace Object

variable {κ μ : Type}

/-- The name under which an object keeps the metadata of its build. -/
def metadataName : Text := ".metadata"

def new (name : Text) : Object κ := ⟨name, none, none, none, none, []⟩

/-- An object without a name, such as a lone code block makes. -/
def unnamed : Object κ := new []

def setCode (object : Object κ) (code : κ) (analysis : Option Text) : Object κ :=
  { object with code := some code, analysis := analysis }

def setDebug (object : Object κ) (bundle : DebugBundle) : Object κ :=
  { object with debug := some bundle }

/-- The object with the table of a pragma, if there was one. -/
def setPragma (object : Object κ) : Option SourceTable → Object κ
  | none => object
  | some table => object.setDebug ⟨some table⟩

def table (object : Object κ) : Option SourceTable :=
  object.debug.bind DebugBundle.table

def dialect? [Code κ] (object : Object κ) : Option Dialect :=
  object.code.bind Code.dialect?

def childNames (object : Object κ) : List Text := object.children.map Node.name

def child? (object : Object κ) (name : Text) : Option (Node κ) :=
  object.children.find? fun node => node.name == name

def childAt? (object : Object κ) (slot : Nat) : Option (Node κ) := object.children[slot]?

/-- The object at the end of a path of slots. -/
def descend? : List Nat → Object κ → Option (Object κ)
  | [], object => some object
  | slot :: path, object =>
      match object.childAt? slot with
      | some (.object nested) => descend? path nested
      | _ => none

mutual

def map (f : κ → μ) : Object κ → Object μ
  | { name, code, analysis, debug, slot, children } =>
      { name, code := code.map f, analysis, debug, slot, children := mapAll f children }

def mapAll (f : κ → μ) : List (Node κ) → List (Node μ)
  | [] => []
  | .data entry :: rest => .data entry :: mapAll f rest
  | .object nested :: rest => .object (map f nested) :: mapAll f rest

end

mutual

/-- An object and all nodes below it, with their depths; each object stands before its
children. -/
def preorder (depth : Nat) : Object κ → List (Nat × Node κ)
  | object@{ name := _, code := _, analysis := _, debug := _, slot := _, children } =>
      (depth, .object object) :: preorderAll (depth + 1) children

def preorderAll (depth : Nat) : List (Node κ) → List (Nat × Node κ)
  | [] => []
  | .data entry :: rest => (depth, .data entry) :: preorderAll depth rest
  | .object nested :: rest => preorder depth nested ++ preorderAll depth rest

end

end Object

end YulTree

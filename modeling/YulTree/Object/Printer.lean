import YulTree.Object.Basic
import YulTree.Text.Lines

/-!
# The text of a tree

A tree is printed in two steps: each code payload is printed in its context, and the printed
payloads are laid out between the names and braces of their objects.
-/

namespace YulTree

/-- The context inside an object: the object's own table hides those around it. -/
def Context.enter (context : Context) (bundle : Option DebugBundle) : Context :=
  { context with table := (bundle.bind DebugBundle.table).or context.table }

def Data.render (data : Data) : Text :=
  "data " ++ Text.Quoted.encode data.name ++ " hex\"" ++ data.bytes.toHex ++ "\""

namespace Object

variable {κ : Type}

mutual

/-- The object with each payload beside the context that it is printed in. -/
def inContext (context : Context) : Object κ → Object (Context × κ)
  | { name, code, analysis, debug, slot, children } =>
      { name, analysis, debug, slot
        code := code.map fun payload => (context.enter debug, payload)
        children := inContextAll (context.enter debug) children }

def inContextAll (context : Context) : List (Node κ) → List (Node (Context × κ))
  | [] => []
  | .data entry :: rest => .data entry :: inContextAll context rest
  | .object nested :: rest => .object (inContext context nested) :: inContextAll context rest

end

/-- The line in front of an object that lists its sources. -/
def pragmaLine (bundle : Option DebugBundle) : Text :=
  match bundle.bind DebugBundle.table with
  | none => []
  | some table => "/// " ++ table.render ++ "\n"

def itemLines (items : List Text) : Text :=
  if items.isEmpty then [] else Text.indent (Text.ofLines items) ++ "\n"

/-- An object's name, and its items between its braces. -/
def enclose (name : Text) (items : List Text) : Text :=
  "object " ++ Text.Quoted.encode name ++ " \x7b\n" ++ itemLines items ++ "\x7d"

mutual

/-- The text of an object whose payloads are printed.  A nameless object that holds nothing
but code is written as that code. -/
def layout (withPragmas : Bool) : Object Text → Text
  | { name, code, analysis := _, debug, slot := _, children } =>
      (if withPragmas then pragmaLine debug else []) ++
        match code with
        | none => enclose name (layoutAll withPragmas children)
        | some printed =>
            if name.isEmpty && children.isEmpty then printed
            else enclose name (("code " ++ printed) :: layoutAll withPragmas children)

def layoutAll (withPragmas : Bool) : List (Node Text) → List Text
  | [] => []
  | .data entry :: rest => entry.render :: layoutAll withPragmas rest
  | .object nested :: rest => layout withPragmas nested :: layoutAll withPragmas rest

end

def printCode [Code κ] (context : Context) (object : Object κ) : Object Text :=
  (object.inContext context).map fun entry => Code.print entry.1 entry.2

/-- The text of a tree with the selected annotations. -/
def print [Code κ] (selection : Selection) (sources : SourceProvider) (object : Object κ) :
    Text :=
  (object.printCode ⟨selection, sources, none⟩).layout selection.useSrc

/-- The text of a tree with the standard annotations, but no source texts. -/
def display [Code κ] (object : Object κ) : Text :=
  object.print Selection.standard SourceProvider.absent

section

variable {m : Type → Type} [Monad m]

mutual

/-- The text of an object, if a payload's text is an answer that has to be asked for. -/
def printM (ask : Context → κ → m Text) (withPragmas : Bool) (context : Context) :
    Object κ → m Text
  | { name, code, analysis := _, debug, slot := _, children } => do
      let inside := context.enter debug
      let front := if withPragmas then pragmaLine debug else []
      match code with
      | none =>
          let items ← printAllM ask withPragmas inside children
          return front ++ enclose name items
      | some payload =>
          let printed ← ask inside payload
          if name.isEmpty && children.isEmpty then
            return front ++ printed
          else
            let items ← printAllM ask withPragmas inside children
            return front ++ enclose name (("code " ++ printed) :: items)

def printAllM (ask : Context → κ → m Text) (withPragmas : Bool) (context : Context) :
    List (Node κ) → m (List Text)
  | [] => return []
  | .data entry :: rest => do
      let items ← printAllM ask withPragmas context rest
      return entry.render :: items
  | .object nested :: rest => do
      let item ← printM ask withPragmas context nested
      let items ← printAllM ask withPragmas context rest
      return item :: items

end

end

/-- A payload answers with its text, and it is noted what it was told. -/
def noted [Code κ] (context : Context) (payload : κ) :
    StateM (List (Context × κ)) Text := do
  modify (· ++ [(context, payload)])
  return Code.print context payload

end Object

namespace Node

variable {κ : Type}

def print [Code κ] (selection : Selection) (sources : SourceProvider) : Node κ → Text
  | .data entry => entry.render
  | .object nested => nested.print selection sources

def display [Code κ] (node : Node κ) : Text :=
  node.print Selection.standard SourceProvider.absent

end Node

end YulTree

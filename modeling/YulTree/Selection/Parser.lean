import YulTree.Json
import YulTree.Selection.Basic
import YulTree.Text.Echo
import YulTree.Text.Trim

/-!
# Reading selections

A selection is read from a list of components with commas between them, or from a value in a
settings file, which is such a list or one flag for each component.
-/

namespace YulTree

inductive SelectionError where
  | empty
  | unknownComponent (label : Text)
  | exclusiveKeyword (keyword : Text)
  | snippetWithoutLocation
  deriving DecidableEq, Repr

def SelectionError.message : SelectionError → Text
  | .empty => "empty debug info selection"
  | .unknownComponent label => "unknown debug info component: " ++ Text.echo label
  | .exclusiveKeyword keyword =>
      Text.echo keyword ++ " cannot be combined with other components"
  | .snippetWithoutLocation => "'snippet' requires 'location'"

inductive SettingsError where
  | wrongShape
  | invalid (error : SelectionError)
  deriving DecidableEq, Repr

def SettingsError.message : SettingsError → Text
  | .wrongShape => "data did not match any variant of untagged enum RawSelection"
  | .invalid error => error.message

namespace Selection

/-- Snippets cannot be chosen without locations. -/
def validate (selection : Selection) : Except SelectionError Selection :=
  if selection.snippet && !selection.location then .error .snippetWithoutLocation
  else .ok selection

/-- The parts of a list of components: blank space around them does not count, nor do empty
parts. -/
def parts (text : Text) : List Text :=
  ((text.splitOn ',').map Text.trim).filter fun part => !part.isEmpty

/-- The selection with the named component chosen.  The two keywords name no component. -/
def choose (selection : Selection) (label : Text) : Except SelectionError Selection :=
  if label = everythingKeyword ∨ label = nothingKeyword then
    .error (.exclusiveKeyword label)
  else
    match Component.ofLabel? label with
    | some component => .ok (selection.set component true)
    | none => .error (.unknownComponent label)

def ofParts (labels : List Text) : Except SelectionError Selection :=
  if labels = [] then .error .empty
  else if labels = [everythingKeyword] then .ok everything
  else if labels = [nothingKeyword] then .ok nothing
  else (labels.foldlM choose nothing).bind validate

def parse (text : Text) : Except SelectionError Selection := ofParts (parts text)

/-- The value of a flag, which is unset when it is missing. -/
def flag? (fields : List (Text × Json)) (component : Component) : Option Bool :=
  match fields.find? fun field => field.1 == component.label with
  | some (_, .bool value) => some value
  | some _ => none
  | none => some false

/-- The selection with the given flags, if each of them is a truth value. -/
def ofFlags? (fields : List (Text × Json)) : Option Selection := do
  let location ← flag? fields .location
  let snippet ← flag? fields .snippet
  let astId ← flag? fields .astId
  let useSrc ← flag? fields .useSrc
  return ⟨location, snippet, astId, useSrc⟩

def ofJson : Json → Except SettingsError Selection
  | .string text => (parse text).mapError .invalid
  | .object fields =>
      match ofFlags? fields with
      | some selection => selection.validate.mapError .invalid
      | none => .error .wrongShape
  | _ => .error .wrongShape

end Selection

end YulTree

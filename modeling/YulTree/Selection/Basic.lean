import YulTree.Text.Basic

/-!
# Selections of debug annotations

Which annotations are written into the text of a tree: locations, source snippets beside
them, syntax-tree ids, and the pragmas that list sources.
-/

namespace YulTree

inductive Component where
  | location
  | snippet
  | astId
  | useSrc
  deriving DecidableEq, Repr

namespace Component

/-- All components, in the order in which a selection lists them. -/
def all : List Component := [.location, .snippet, .astId, .useSrc]

def label : Component → Text
  | .location => "location"
  | .snippet => "snippet"
  | .astId => "ast-id"
  | .useSrc => "use-src"

def ofLabel? (label : Text) : Option Component :=
  all.find? fun component => component.label == label

@[simp]
theorem ofLabel?_label (component : Component) :
    ofLabel? component.label = some component := by
  cases component <;> decide

end Component

structure Selection where
  location : Bool
  snippet : Bool
  astId : Bool
  useSrc : Bool
  deriving DecidableEq, Repr

namespace Selection

def everything : Selection := ⟨true, true, true, true⟩

def nothing : Selection := ⟨false, false, false, false⟩

def everythingKeyword : Text := "all"

def nothingKeyword : Text := "none"

/-- What is selected unless something else is asked for. -/
def standard : Selection := ⟨true, true, false, true⟩

/-- Locations without snippets or pragmas. -/
def onlyLocation : Selection := ⟨true, false, false, false⟩

instance : Inhabited Selection := ⟨standard⟩

def has (selection : Selection) : Component → Bool
  | .location => selection.location
  | .snippet => selection.snippet
  | .astId => selection.astId
  | .useSrc => selection.useSrc

def set (selection : Selection) (component : Component) (chosen : Bool) : Selection :=
  match component with
  | .location => { selection with location := chosen }
  | .snippet => { selection with snippet := chosen }
  | .astId => { selection with astId := chosen }
  | .useSrc => { selection with useSrc := chosen }

@[simp]
theorem has_set (selection : Selection) (component other : Component) (chosen : Bool) :
    (selection.set component chosen).has other =
      if other = component then chosen else selection.has other := by
  cases component <;> cases other <;> rfl

/-- Snippets are written only beside a location. -/
def showsSnippet (selection : Selection) : Bool := selection.location && selection.snippet

/-- The text of a selection: a keyword, or the chosen components with commas between them. -/
def render (selection : Selection) : Text :=
  if selection = everything then everythingKeyword
  else if selection = nothing then nothingKeyword
  else [','].intercalate ((Component.all.filter selection.has).map Component.label)

end Selection

end YulTree

import YulTree.Json
import YulTree.Selection.Basic
import YulTree.Source.Snippet
import YulTree.Source.Table

/-!
# What a code printer knows

The context in which a code payload is printed: the selection, the texts of the sources, and
the table of the nearest enclosing object.
-/

namespace YulTree

/-- What surrounds a code payload when it is printed. -/
structure Context where
  selection : Selection
  sources : SourceProvider
  table : Option SourceTable

namespace Context

def sourceName? (context : Context) (index : UInt32) : Option Text :=
  context.table.bind fun table => table.get? index

/-- The excerpt of a source that goes with a location. -/
def snippet? (context : Context) (index : UInt32) (start stop : Nat) : Option Text :=
  if context.selection.showsSnippet then
    (context.sources index).bind fun content => content.snippet? start stop
  else
    none

def location? (context : Context) (index : UInt32) (start stop : Nat) : Option Text :=
  if context.selection.location then
    let place : Text :=
      "@src " ++ Text.ofNat index.toNat ++ ':' :: Text.ofNat start ++ ':' :: Text.ofNat stop
    match context.snippet? index start stop with
    | some snippet => some (place ++ "  " ++ Text.Quoted.encode snippet)
    | none => some place
  else
    none

def astId? (context : Context) (id : Int) : Option Text :=
  if context.selection.astId then some ("@ast-id " ++ Text.ofInt id) else none

end Context

/-- What can be asked of a context. -/
inductive Query where
  | location (index : UInt32) (start stop : Nat)
  | astId (id : Int)
  | sourceName (index : UInt32)
  | selection
  deriving DecidableEq, Repr

namespace Query

/-- The answer to a query, if there is one. -/
def answer? (context : Context) : Query → Option Text
  | .location index start stop => context.location? index start stop
  | .astId id => context.astId? id
  | .sourceName index => context.sourceName? index
  | .selection => some context.selection.render

def toJson : Query → Json
  | .location index start stop =>
      .array [.string "src", .natural index.toNat, .natural start, .natural stop]
  | .astId id => .array [.string "ast", .integer id]
  | .sourceName index => .array [.string "name", .natural index.toNat]
  | .selection => .array [.string "sel"]

end Query

end YulTree

import YulTree.Code.Basic
import YulTree.Code.Block

/-!
# The payloads at hand

A payload is a block of text, or a probe, which is printed as the answers that the context
gives to its queries and so shows what a code printer is told.
-/

namespace YulTree

inductive Payload.Content where
  | block (block : Block)
  | probe (queries : List Query)
  deriving DecidableEq, Repr

/-- Code, and the dialect that it was checked against. -/
structure Payload where
  content : Payload.Content
  dialect : Option Dialect
  deriving DecidableEq, Repr

namespace Payload

def ofBody (dialect : Option Dialect) (body : Text) : Payload :=
  ⟨.block (.ofBody body), dialect⟩

/-- How the answer to a query is shown. -/
def renderAnswer (context : Context) (query : Query) : Text :=
  "    // " ++ (query.answer? context).getD "-" ++ "\n"

def print (context : Context) (payload : Payload) : Text :=
  match payload.content with
  | .block block => block.render
  | .probe queries => "\x7b\n" ++ queries.flatMap (renderAnswer context) ++ "\x7d"

def toJson (payload : Payload) : Json :=
  match payload.content with
  | .block block => block.toJson
  | .probe queries =>
      .object [("nodeType", .string "Probe"), ("items", .array (queries.map Query.toJson))]

instance : Code Payload where
  dialect? := Payload.dialect
  print := Payload.print
  toJson := Payload.toJson

end Payload

end YulTree

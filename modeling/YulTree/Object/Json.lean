import YulTree.Json
import YulTree.Object.Basic

/-!
# Trees as JSON values

A value that shows all that a tree is made of: names, code, byte strings, children in their
order, and tables of sources.
-/

namespace YulTree

def Data.toJson (data : Data) : Json :=
  .object
    [("nodeType", .string "YulData"), ("name", .string data.name),
      ("value", .string data.bytes.toHex)]

/-- A table as a value: its indices are the names of the fields. -/
def SourceTable.toJson (table : SourceTable) : Json :=
  .object (table.entries.map fun entry => (Text.ofNat entry.1.toNat, .string entry.2))

namespace Object

variable {κ : Type} [Code κ]

def codeField (code : Option κ) : List (Text × Json) :=
  match code with
  | none => []
  | some payload =>
      [("code",
        .object [("nodeType", .string "YulCode"), ("block", Code.toJson payload)])]

def sourcesField (bundle : Option DebugBundle) : List (Text × Json) :=
  match bundle.bind DebugBundle.table with
  | none => []
  | some table => [("sourceNames", table.toJson)]

mutual

def toJson : Object κ → Json
  | { name, code, analysis := _, debug, slot := _, children } =>
      .object
        (("nodeType", .string "YulObject") :: ("name", .string name) ::
          ("subObjects", .array (toJsonAll children)) ::
          (codeField code ++ sourcesField debug))

def toJsonAll : List (Node κ) → List Json
  | [] => []
  | .data entry :: rest => entry.toJson :: toJsonAll rest
  | .object nested :: rest => toJson nested :: toJsonAll rest

end

end Object

end YulTree

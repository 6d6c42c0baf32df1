import YulTree.Source.Table
import YulTree.Text.Echo
import YulTree.Token.Scan

/-!
# Reading tables of sources

The payload of a pragma lists indices with names: a number, a colon and a quoted name, and
commas between the entries.
-/

namespace YulTree

inductive PragmaFault where
  | expectedIndex (found : Text)
  | badIndex (numeral : Text)
  | expectedColon (index : UInt32)
  | expectedName (index : UInt32)
  | badEscape (escape : Text)
  | nameNotText
  | listedTwice (index : UInt32)
  | trailingComma
  | expectedComma (found : Text)
  deriving DecidableEq, Repr

def PragmaFault.message : PragmaFault → Text
  | .expectedIndex found => "expected source index, found " ++ Text.echo found
  | .badIndex numeral => "invalid source index " ++ Text.echo numeral
  | .expectedColon index =>
      "expected ':' after source index " ++ Text.ofNat index.toNat
  | .expectedName index => "expected source name for index " ++ Text.ofNat index.toNat
  | .badEscape escape => "invalid escape " ++ Text.echo escape
  | .nameNotText => "source name is not valid UTF-8"
  | .listedTwice index =>
      "source index " ++ Text.ofNat index.toNat ++ " listed twice"
  | .trailingComma => "trailing ','"
  | .expectedComma found => "expected ',', found " ++ Text.echo found

/-- The index that a numeral stands for, if there is such an index. -/
def Text.toIndex? (numeral : Text) : Option UInt32 :=
  (Text.toNat? numeral).bind fun n =>
    if n < UInt32.size then some (UInt32.ofNat n) else none

namespace SourceTable

def readIndex (token : Token) : Except PragmaFault UInt32 :=
  if token.kind ≠ .number then .error (.expectedIndex token.text)
  else
    match token.text.toIndex? with
    | some index => .ok index
    | none => .error (.badIndex token.text)

def readName (index : UInt32) (token : Token) : Except PragmaFault Text :=
  if token.kind ≠ .stringLiteral then .error (.expectedName index)
  else
    match Text.Quoted.decodeLiteral token.text with
    | .error escape => .error (.badEscape escape)
    | .ok bytes =>
        match Text.ofBytes? bytes with
        | some name => .ok name
        | none => .error .nameNotText

def isMark (mark : Text) (token : Token) : Bool :=
  token.kind == .punctuation && token.text == mark

/-- The table with the entries that tokens list. -/
def readEntries (table : SourceTable) : List Token → Except PragmaFault SourceTable
  | [] => .ok table
  | indexToken :: rest =>
      match readIndex indexToken with
      | .error fault => .error fault
      | .ok index =>
          match rest with
          | [] => .error (.expectedColon index)
          | colon :: rest =>
              if !isMark ":" colon then .error (.expectedColon index)
              else
                match rest with
                | [] => .error (.expectedName index)
                | nameToken :: rest =>
                    match readName index nameToken with
                    | .error fault => .error fault
                    | .ok name =>
                        if table.contains index then .error (.listedTwice index)
                        else
                          match rest with
                          | [] => .ok (table.insert index name)
                          | comma :: rest =>
                              if !isMark "," comma then
                                .error (.expectedComma comma.text)
                              else if rest.isEmpty then .error .trailingComma
                              else readEntries (table.insert index name) rest

def ofPayload (payload : Text) : Except PragmaFault SourceTable :=
  readEntries OrderedMap.empty (Token.significant payload)

end SourceTable

end YulTree

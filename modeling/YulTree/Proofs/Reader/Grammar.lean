import YulTree.Proofs.Object.Names
import YulTree.Proofs.Token.Balance
import YulTree.Proofs.Token.Row
import YulTree.Reader.Read

/-!
# The grammar of trees

The texts that describe trees, by their derivations:

* a root is an object or a block, with or without a pragma in front;
* an object is `object`, a name, and braces around its code, if any, and its items;
* the code of an object is `code` and a block;
* an item is a byte string, or an object with or without a pragma in front;
* a byte string is `data`, a name and a literal;
* a block is balanced tokens between braces.

A derivation is a tree whose leaves are lexemes of the right kinds.  What it denotes is an
object; it is admissible if it keeps the rules that the grammar does not express.
-/

namespace YulTree.Grammar

structure Terminal (kind : TokenKind) where
  lexeme : Lexeme
  isKind : lexeme.kind = kind

structure BlockTree where
  opening : Terminal .openBrace
  inner : List Lexeme
  closing : Terminal .closeBrace
  balanced : Balanced (inner.map Lexeme.kind)

structure CodeTree where
  keyword : Terminal .codeKeyword
  block : BlockTree

inductive ValueTree where
  | hex (literal : Terminal .hexLiteral)
  | string (literal : Terminal .stringLiteral)

structure DataTree where
  keyword : Terminal .dataKeyword
  name : Terminal .stringLiteral
  value : ValueTree

mutual

structure ObjectTree where
  keyword : Terminal .objectKeyword
  name : Terminal .stringLiteral
  opening : Terminal .openBrace
  code : Option CodeTree
  items : List ItemTree
  closing : Terminal .closeBrace

inductive ItemTree where
  | data (entry : DataTree)
  | object (pragma : Option (Terminal .pragma)) (nested : ObjectTree)

end

inductive RootTree where
  | block (pragma : Option (Terminal .pragma)) (lone : BlockTree)
  | object (pragma : Option (Terminal .pragma)) (outermost : ObjectTree)

def pragmaLexemes (pragma : Option (Terminal .pragma)) : List Lexeme :=
  pragma.toList.map Terminal.lexeme

def BlockTree.lexemes (block : BlockTree) : List Lexeme :=
  block.opening.lexeme :: (block.inner ++ [block.closing.lexeme])

def codeLexemes : Option CodeTree → List Lexeme
  | none => []
  | some code => code.keyword.lexeme :: code.block.lexemes

def ValueTree.lexeme : ValueTree → Lexeme
  | .hex literal => literal.lexeme
  | .string literal => literal.lexeme

def DataTree.lexemes (entry : DataTree) : List Lexeme :=
  [entry.keyword.lexeme, entry.name.lexeme, entry.value.lexeme]

mutual

def ObjectTree.lexemes : ObjectTree → List Lexeme
  | { keyword, name, opening, code, items, closing } =>
      keyword.lexeme :: name.lexeme :: opening.lexeme ::
        (codeLexemes code ++ (ItemTree.lexemesAll items ++ [closing.lexeme]))

def ItemTree.lexemesAll : List ItemTree → List Lexeme
  | [] => []
  | .data entry :: rest => entry.lexemes ++ ItemTree.lexemesAll rest
  | .object pragma nested :: rest =>
      pragmaLexemes pragma ++ (nested.lexemes ++ ItemTree.lexemesAll rest)

end

def RootTree.lexemes : RootTree → List Lexeme
  | .block pragma lone => pragmaLexemes pragma ++ lone.lexemes
  | .object pragma outermost => pragmaLexemes pragma ++ outermost.lexemes

def Terminal.bytes? (literal : Terminal .stringLiteral) : Option Bytes :=
  (Text.Quoted.decodeLiteral literal.lexeme.token.text).toOption

def Terminal.name? (literal : Terminal .stringLiteral) : Option Text :=
  literal.bytes?.bind Text.ofBytes?

/-- The name that a literal denotes, which must be one. -/
def Terminal.name (literal : Terminal .stringLiteral) : Text := literal.name?.getD []

def Terminal.table? (pragma : Terminal .pragma) : Option SourceTable :=
  (SourceTable.ofPayload ((pragmaPayload? pragma.lexeme.token.text).getD [])).toOption

def Terminal.digits (literal : Terminal .hexLiteral) : Text :=
  Reader.hexDigits literal.lexeme.token.text

def ValueTree.bytes : ValueTree → Bytes
  | .hex literal => (Bytes.ofHex? literal.digits).getD []
  | .string literal => literal.bytes?.getD []

/-- The body of a block: the source between its braces. -/
def BlockTree.body (source : Text) (block : BlockTree) : Text :=
  (source.slice? block.opening.lexeme.token.stop block.closing.lexeme.token.start).getD []

def ItemTree.name : ItemTree → Text
  | .data entry => entry.name.name
  | .object _ nested => nested.name.name

def bundle (pragma : Option (Terminal .pragma)) : Option DebugBundle :=
  (pragma.bind Terminal.table?).map fun table => ⟨some table⟩

section

variable {κ : Type} (payload : Text → κ) (source : Text)

mutual

/-- The object that a derivation denotes, behind a pragma and in a slot, if any. -/
def ObjectTree.denote (pragma : Option (Terminal .pragma)) (slot : Option Nat) :
    ObjectTree → Object κ
  | { keyword := _, name, opening := _, code, items, closing := _ } =>
      { name := name.name
        code := code.map fun code => payload (code.block.body source)
        analysis := none
        debug := bundle pragma
        slot
        children := ItemTree.denoteAll 0 items }

def ItemTree.denoteAll (slot : Nat) : List ItemTree → List (Node κ)
  | [] => []
  | .data entry :: rest =>
      .data ⟨entry.name.name, entry.value.bytes⟩ :: ItemTree.denoteAll (slot + 1) rest
  | .object pragma nested :: rest =>
      .object (nested.denote pragma (some slot)) :: ItemTree.denoteAll (slot + 1) rest

end

def RootTree.denote : RootTree → Object κ
  | .block pragma lone =>
      { (Object.unnamed.setCode (payload (lone.body source)) none : Object κ) with
        debug := bundle pragma }
  | .object pragma outermost => outermost.denote payload source pragma none

end

def Terminal.IsName (literal : Terminal .stringLiteral) : Prop := literal.name?.isSome

/-- A value denotes bytes: escapes are followed by what they need, and digits come in pairs. -/
def ValueTree.IsValue : ValueTree → Prop
  | .hex literal => literal.digits.length % 2 = 0
  | .string literal => literal.bytes?.isSome

def ListsTable (pragma : Option (Terminal .pragma)) : Prop :=
  ∀ terminal ∈ pragma, terminal.table?.isSome

theorem ListsTable.none : ListsTable none := by
  intro pragma member
  cases member

theorem ListsTable.some {pragma : Terminal .pragma} {table : SourceTable}
    (listed : pragma.table? = .some table) : ListsTable (.some pragma) := by
  intro terminal member
  obtain rfl := Option.mem_some.mp member
  rw [listed]
  rfl

mutual

/-- Names, values and pragmas are in order, and no more than `room` objects stand inside one
another. -/
def ObjectTree.Admissible (room : Nat) : ObjectTree → Prop
  | { keyword := _, name, opening := _, code := _, items, closing := _ } =>
      0 < room ∧ name.IsName ∧ NamesFit name.name (items.map ItemTree.name) ∧
        ItemTree.AdmissibleAll (room - 1) items

def ItemTree.AdmissibleAll (room : Nat) : List ItemTree → Prop
  | [] => True
  | .data entry :: rest =>
      entry.name.IsName ∧ entry.value.IsValue ∧ ItemTree.AdmissibleAll room rest
  | .object pragma nested :: rest =>
      ListsTable pragma ∧ nested.Admissible room ∧ ItemTree.AdmissibleAll room rest

end

def RootTree.Admissible (limit : Nat) : RootTree → Prop
  | .block pragma _ => ListsTable pragma
  | .object pragma outermost => ListsTable pragma ∧ outermost.Admissible limit

end YulTree.Grammar

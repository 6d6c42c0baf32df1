import YulTree.Proofs.Object.Reread
import YulTree.Proofs.Reader.Derivation
import YulTree.Proofs.Reader.HexData

/-!
# Derivations of printed trees

The text of a tree has an admissible derivation, at whatever level it stands and whatever
follows it.
-/

namespace YulTree.Grammar

open Lexeme

theorem Terminal.name?_encode {literal : Terminal .stringLiteral} {name : Text}
    (written : literal.lexeme.token.text = Text.Quoted.encode name) :
    literal.name? = some name := by
  have decoded : literal.bytes? = some name.toBytes := by
    rw [Terminal.bytes?, written, Text.Quoted.decodeLiteral_encode]
    rfl
  rw [Terminal.name?, decoded, Option.bind_some, Text.ofBytes?_toBytes]

theorem Terminal.digits_hexLiteral {literal : Terminal .hexLiteral} {bytes : Bytes}
    (written : literal.lexeme.token.text = hexLiteral bytes) :
    literal.digits = bytes.toHex := by
  rw [Terminal.digits, written, hexLiteral_eq, Reader.hexDigits_hexQuoted]
  refine List.filter_eq_self.mpr fun c member => ?_
  exact bne_iff_ne.mpr (isHexRest_of_mem_toHex member).2

theorem Terminal.table?_commentText {pragma : Terminal .pragma} {table : SourceTable}
    (written : pragma.lexeme.token.text = '/' :: '/' :: table.commentText) :
    pragma.table? = some table := by
  rw [Terminal.table?, written, SourceTable.pragmaPayload?_commentText, Option.getD_some,
    SourceTable.ofPayload_entriesText]
  rfl

theorem length_toHex (bytes : Bytes) : bytes.toHex.length = 2 * bytes.length := by
  induction bytes with
  | nil => rfl
  | cons byte rest inductionHypothesis =>
      simp only [Bytes.toHex, List.flatMap_cons, List.length_append, List.length_cons,
        Bytes.hexOfByte, List.length_nil] at inductionHypothesis ⊢
      omega

theorem ahead_margin (level : Nat) (lead : Text) (start : Nat) (rest : Text) :
    ∃ leadBehind stop, ahead lead start (Text.margin level ++ rest) = ahead leadBehind stop rest :=
  ⟨_, _, ahead_spaces (fun _ => Text.isSpace_of_mem_margin) lead start rest⟩

theorem ahead_keyword (kind : TokenKind) (c : Char) (letters : Text)
    (starts : Piece.Initial.ofChar c = .letter)
    (goesOn : letters.all Piece.isWordRest = true) (notHex : c :: letters ≠ ("hex" : Text))
    (isKind : Piece.wordKind (c :: letters) = kind) (level : Nat) (lead : Text) (start : Nat)
    (rest : Text) :
    ∃ (keyword : Terminal kind) (stop : Nat),
      ahead lead start (Text.margin level ++ (c :: (letters ++ ' ' :: rest))) =
        keyword.lexeme :: ahead [' '] stop rest := by
  obtain ⟨leadBehind, keywordStart, behindMargin⟩ :=
    ahead_margin level lead start (c :: (letters ++ ' ' :: rest))
  rw [behindMargin, ahead_word starts (List.all_eq_true.mp goesOn) (ends_cons rfl _) notHex,
    ahead_space (c := ' ') rfl]
  exact ⟨⟨⟨leadBehind, ⟨Piece.wordKind (c :: letters), c :: letters, keywordStart⟩⟩, isKind⟩,
    _, rfl⟩

theorem ahead_name (name : Text) (lead : Text) (start : Nat) (rest : Text) :
    ∃ (literal : Terminal .stringLiteral) (stop : Nat),
      ahead lead start (Text.Quoted.encode name ++ ' ' :: rest) =
        literal.lexeme :: ahead [' '] stop rest ∧
      literal.name? = some name := by
  have row := ahead_encode name lead start (' ' :: rest)
  rw [ahead_space (c := ' ') rfl] at row
  exact ⟨⟨⟨lead, ⟨.stringLiteral, Text.Quoted.encode name, start⟩⟩, rfl⟩, _, row,
    Terminal.name?_encode rfl⟩

/-- The line on which an object begins. -/
theorem ahead_head (name : Text) (level : Nat) (lead : Text) (start : Nat) (rest : Text) :
    ∃ (keyword : Terminal .objectKeyword) (literal : Terminal .stringLiteral)
      (opening : Terminal .openBrace) (stop : Nat),
      ahead lead start
          (Text.margin level ++
            ("object " ++ (Text.Quoted.encode name ++ (" \x7b\n" ++ rest)))) =
        keyword.lexeme :: literal.lexeme :: opening.lexeme :: ahead ['\n'] stop rest ∧
      literal.name? = some name := by
  have cut : ("object " : Text) ++ (Text.Quoted.encode name ++ (" \x7b\n" ++ rest)) =
      'o' :: (['b', 'j', 'e', 'c', 't'] ++
        ' ' :: (Text.Quoted.encode name ++ ' ' :: '\x7b' :: '\n' :: rest)) := by
    simp
  obtain ⟨keyword, nameStart, keywordRow⟩ :=
    ahead_keyword .objectKeyword 'o' ['b', 'j', 'e', 'c', 't'] rfl rfl (by simp)
      (by decide) level lead start
      (Text.Quoted.encode name ++ ' ' :: '\x7b' :: '\n' :: rest)
  obtain ⟨literal, openingStart, nameRow, isName⟩ :=
    ahead_name name [' '] nameStart ('\x7b' :: '\n' :: rest)
  have openingRow := ahead_openBrace [' '] openingStart ('\n' :: rest)
  rw [ahead_space (c := '\n') rfl] at openingRow
  rw [cut, keywordRow, nameRow, openingRow]
  exact ⟨keyword, literal, ⟨⟨[' '], ⟨.openBrace, ['\x7b'], openingStart⟩⟩, rfl⟩, _, rfl, isName⟩

/-- The line of a byte string. -/
theorem ahead_data (entry : Data) (level : Nat) (lead : Text) (start : Nat) (rest : Text) :
    ∃ (tree : DataTree) (stop : Nat),
      ahead lead start (Text.margin level ++ (entry.render ++ '\n' :: rest)) =
        tree.lexemes ++ ahead ['\n'] stop rest ∧
      tree.name.name? = some entry.name ∧ tree.value.IsValue ∧ tree.value.bytes = entry.bytes := by
  obtain ⟨dataLead, dataStart, behindMargin⟩ :=
    ahead_margin level lead start (entry.render ++ '\n' :: rest)
  obtain ⟨nameStart, valueStart, row⟩ := ahead_render entry dataLead dataStart ('\n' :: rest)
  rw [ahead_space (c := '\n') rfl] at row
  obtain ⟨value, lexemeEq⟩ : ∃ value : Terminal .hexLiteral,
      value.lexeme = ⟨[' '], ⟨.hexLiteral, hexLiteral entry.bytes, valueStart⟩⟩ :=
    ⟨⟨_, rfl⟩, rfl⟩
  have digits : value.digits = entry.bytes.toHex :=
    Terminal.digits_hexLiteral (by rw [lexemeEq])
  let keyword : Terminal .dataKeyword :=
    ⟨⟨dataLead, ⟨.dataKeyword, "data", dataStart⟩⟩, rfl⟩
  let literal : Terminal .stringLiteral :=
    ⟨⟨[' '], ⟨.stringLiteral, Text.Quoted.encode entry.name, nameStart⟩⟩, rfl⟩
  rw [behindMargin, row, ← lexemeEq]
  refine ⟨⟨keyword, literal, .hex value⟩, _, rfl, Terminal.name?_encode rfl, ?_, ?_⟩
  · rw [ValueTree.IsValue, digits, length_toHex]
    omega
  · rw [ValueTree.bytes, digits, Bytes.ofHex?_toHex, Option.getD_some]

theorem ahead_block {block : Block} (printable : block.Printable) (level : Nat) (lead : Text)
    (start : Nat) (rest : Text) :
    ∃ (tree : BlockTree) (stop : Nat),
      ahead lead start ('\x7b' :: (block.bodyAt level ++ '\x7d' :: rest)) =
        tree.lexemes ++ ahead [] stop rest ∧
      Lexeme.text tree.inner ++ tree.closing.lexeme.lead = block.bodyAt level := by
  obtain ⟨inner, closingLead, closingStart, innerRow, body, balanced⟩ :=
    ahead_enclosed (Block.isEnclosed_bodyAt printable level) (start + Text.byteSize ['\x7b']) rest
  refine ⟨⟨⟨⟨lead, ⟨.openBrace, ['\x7b'], start⟩⟩, rfl⟩, inner,
    ⟨⟨closingLead, ⟨.closeBrace, ['\x7d'], closingStart⟩⟩, rfl⟩, balanced⟩,
    closingStart + Text.byteSize ['\x7d'], ?_, body⟩
  rw [ahead_openBrace, innerRow, BlockTree.lexemes]
  simp

/-- The lines of an object's code. -/
theorem ahead_code {block : Block} (printable : block.Printable) (level : Nat) (lead : Text)
    (start : Nat) (rest : Text) :
    ∃ (code : CodeTree) (stop : Nat),
      ahead lead start (Text.shift level ("code " ++ block.render) ++ '\n' :: rest) =
        codeLexemes (some code) ++ ahead ['\n'] stop rest ∧
      Lexeme.text code.block.inner ++ code.block.closing.lexeme.lead = block.bodyAt level := by
  have cut : Text.shift level ("code " ++ block.render) ++ '\n' :: rest =
      Text.margin level ++
        'c' :: (['o', 'd', 'e'] ++
          ' ' :: '\x7b' :: (block.bodyAt level ++ '\x7d' :: '\n' :: rest)) := by
    rw [Block.shift_render printable.normal (by decide)]
    simp
  obtain ⟨keyword, openingStart, keywordRow⟩ :=
    ahead_keyword .codeKeyword 'c' ['o', 'd', 'e'] rfl rfl (by simp) (by decide) level
      lead start
      ('\x7b' :: (block.bodyAt level ++ '\x7d' :: '\n' :: rest))
  obtain ⟨tree, stop, blockRow, body⟩ :=
    ahead_block printable level [' '] openingStart ('\n' :: rest)
  rw [ahead_space (c := '\n') rfl] at blockRow
  rw [cut, keywordRow, blockRow]
  exact ⟨⟨keyword, tree⟩, _, rfl, body⟩

/-- The line of a pragma, if one is written. -/
theorem ahead_pragmaAt (useSrc : Bool) (level : Nat) (debug : Option DebugBundle) (lead : Text)
    (start : Nat) (rest : Text) :
    ∃ (pragma : Option (Terminal .pragma)) (leadBehind : Text) (stop : Nat),
      ahead lead start (Object.pragmaAt useSrc level debug ++ rest) =
        pragmaLexemes pragma ++ ahead leadBehind stop rest ∧
      ListsTable pragma ∧ bundle pragma = Object.rereadDebug useSrc debug := by
  unfold Object.pragmaAt Object.rereadDebug
  cases useSrc with
  | false => exact ⟨none, lead, start, rfl, ListsTable.none, rfl⟩
  | true =>
      cases debug.bind DebugBundle.table with
      | none => exact ⟨none, lead, start, rfl, ListsTable.none, rfl⟩
      | some table =>
          have cut : Text.margin level ++ ('/' :: '/' :: (table.commentText ++ ['\n'])) ++ rest =
              Text.margin level ++ ('/' :: '/' :: (table.commentText ++ '\n' :: rest)) := by
            simp
          have isPragma :
              (pragmaPayload? ('/' :: '/' :: table.commentText)).isSome = true := by
            rw [table.pragmaPayload?_commentText]
            rfl
          obtain ⟨pragmaLead, pragmaStart, behindMargin⟩ :=
            ahead_margin level lead start ('/' :: '/' :: (table.commentText ++ '\n' :: rest))
          let pragma : Terminal .pragma :=
            ⟨⟨pragmaLead, ⟨.pragma, '/' :: '/' :: table.commentText, pragmaStart⟩⟩, rfl⟩
          have listed : pragma.table? = some table := Terminal.table?_commentText rfl
          have row := ahead_pragma table.unbroken_commentText isPragma pragmaLead pragmaStart rest
          rw [ahead_space (c := '\n') rfl] at row
          simp only [if_true]
          rw [cut, behindMargin, row]
          refine ⟨some pragma, _, _, rfl, ListsTable.some listed, ?_⟩
          rw [bundle, Option.bind_some, listed]

theorem ahead_closing (level : Nat) (lead : Text) (start : Nat) (rest : Text) :
    ∃ (closing : Terminal .closeBrace) (stop : Nat),
      ahead lead start (Text.margin level ++ '\x7d' :: rest) =
        closing.lexeme :: ahead [] stop rest := by
  obtain ⟨closingLead, closingStart, behindMargin⟩ :=
    ahead_margin level lead start ('\x7d' :: rest)
  rw [behindMargin, ahead_closeBrace]
  exact ⟨⟨⟨closingLead, ⟨.closeBrace, ['\x7d'], closingStart⟩⟩, rfl⟩, _, rfl⟩

section

variable (source : Text) (useSrc : Bool)

/-- The code of a printed object. -/
theorem exists_codeTree {code : Option Payload} (printable : ∀ payload ∈ code, payload.IsPrintable)
    (context : Context) (level : Nat) (lead : Text) (start : Nat) (rest : Text)
    (row : ahead lead start
      (Object.itemsAt level
        (code.map fun payload => "code " ++ Code.print context payload).toList ++ rest) <:+
      Lexeme.all source) :
    ∃ (tree : Option CodeTree) (leadBehind : Text) (stop : Nat),
      ahead lead start
          (Object.itemsAt level
            (code.map fun payload => "code " ++ Code.print context payload).toList ++ rest) =
        codeLexemes tree ++ ahead leadBehind stop rest ∧
      (tree.map fun code => code.block.body source) = code.map (Payload.bodyAt level) := by
  cases code with
  | none => exact ⟨none, lead, start, rfl, rfl⟩
  | some payload =>
      obtain ⟨block, content, blockPrintable⟩ := printable payload rfl
      have printed := payload.print_of_block content context
      have cut : Object.itemsAt level
          ((some payload).map fun payload => "code " ++ Code.print context payload).toList ++ rest =
          Text.shift level ("code " ++ block.render) ++ '\n' :: rest := by
        rw [Option.map_some, Option.toList_some, Object.itemsAt_cons, printed]
        simp [Object.itemsAt]
      obtain ⟨tree, stop, treeRow, body⟩ := ahead_code blockPrintable level lead start rest
      rw [cut, treeRow] at row
      refine ⟨some tree, ['\n'], stop, cut ▸ treeRow, ?_⟩
      have blockRow : tree.block.lexemes ++ ahead ['\n'] stop rest <:+ Lexeme.all source :=
        (List.suffix_cons _ _).trans row
      rw [Option.map_some, Option.map_some, BlockTree.body_eq source blockRow, body,
        Payload.bodyAt_of_block content]

mutual

/-- What an object encloses has a derivation, which denotes the object as it was printed. -/
theorem exists_objectTree_of_enclose : ∀ (object : Object Payload) (context : Context)
    (level room : Nat) (lead : Text) (start : Nat) (rest : Text), object.Printable room →
    ahead lead start
      (Text.shift level (Object.enclose object.name (object.itemTexts useSrc context)) ++ rest) <:+
        Lexeme.all source →
    ∃ (tree : ObjectTree) (stop : Nat),
      ahead lead start
          (Text.shift level (Object.enclose object.name (object.itemTexts useSrc context)) ++
            rest) =
        tree.lexemes ++ ahead [] stop rest ∧
      tree.Admissible room ∧ tree.name.name = object.name ∧
      ∀ (κ : Type) (payload : Text → κ) (pragma : Option (Terminal .pragma)) (slot : Option Nat),
        bundle pragma = Object.rereadDebug useSrc object.debug →
        tree.denote payload source pragma slot =
          object.asPrinted payload useSrc (level + 1) slot
  | { name, code, analysis, debug, slot, children }, context, level, room, lead, start, rest,
      printable, row => by
      obtain ⟨roomLeft, codePrintable, namesFit, childrenPrintable⟩ := printable
      have cut : Text.shift level
            (Object.enclose name
              (Object.itemTexts useSrc context ⟨name, code, analysis, debug, slot, children⟩)) ++
            rest =
          Text.margin level ++
            ("object " ++ (Text.Quoted.encode name ++ (" \x7b\n" ++
              (Object.itemsAt (level + 1)
                  (code.map fun payload => "code " ++
                    Code.print (context.enter debug) payload).toList ++
                (Object.itemsAt (level + 1)
                    (Object.texts useSrc (context.enter debug) children) ++
                  (Text.margin level ++ '\x7d' :: rest)))))) := by
        rw [Object.shift_enclose, Object.itemTexts, Object.itemsAt_append]
        simp only [List.append_assoc, List.singleton_append]
      obtain ⟨keyword, literal, opening, headStop, headRow, isName⟩ :=
        ahead_head name level lead start
          (Object.itemsAt (level + 1)
              (code.map fun payload => "code " ++
                Code.print (context.enter debug) payload).toList ++
            (Object.itemsAt (level + 1) (Object.texts useSrc (context.enter debug) children) ++
              (Text.margin level ++ '\x7d' :: rest)))
      have whole := (congrArg (ahead lead start) cut).trans headRow
      simp only at row
      rw [whole] at row
      have codeRow := (List.suffix_cons _ _).trans
        ((List.suffix_cons _ _).trans ((List.suffix_cons _ _).trans row))
      obtain ⟨codeTree, codeLead, codeStop, codeLexemesEq, codeRead⟩ :=
        exists_codeTree source codePrintable _ _ _ _ _ codeRow
      rw [codeLexemesEq] at codeRow
      have named : ∀ child ∈ children, child.name ≠ [] := by
        intro child member nameless
        exact namesFit.named (nameless ▸ List.mem_map_of_mem member)
      obtain ⟨items, itemsLead, itemsStop, itemsLexemesEq, itemsAdmissible, itemNames,
          itemsRead⟩ :=
        exists_itemTrees_of_texts children _ _ _ _ _ _ childrenPrintable named
          ((List.suffix_append _ _).trans codeRow)
      obtain ⟨closing, stop, closingRow⟩ := ahead_closing level itemsLead itemsStop rest
      have nameEq : literal.name = name := by
        rw [Terminal.name, isName]
        rfl
      refine ⟨⟨keyword, literal, opening, codeTree, items, closing⟩, stop, ?_, ?_, nameEq, ?_⟩
      · rw [whole, codeLexemesEq, itemsLexemesEq, closingRow]
        simp [ObjectTree.lexemes]
      · refine ⟨roomLeft, ?_, ?_, itemsAdmissible⟩
        · rw [Terminal.IsName, isName]
          rfl
        · rw [nameEq, itemNames]
          exact namesFit
      · intro κ payload pragma slot sameDebug
        have ownRead : (codeTree.map fun code => payload (code.block.body source)) =
            code.map fun own => payload (own.bodyAt (level + 1)) := by
          have mapped := congrArg (Option.map payload) codeRead
          rw [Option.map_map, Option.map_map] at mapped
          exact mapped
        rw [ObjectTree.denote, Object.asPrinted, nameEq, ownRead, sameDebug, itemsRead]

/-- The texts of children have derivations, which denote the children as they were printed. -/
theorem exists_itemTrees_of_texts : ∀ (children : List (Node Payload)) (context : Context)
    (level room : Nat) (lead : Text) (start : Nat) (rest : Text),
    Object.PrintableAll room children → (∀ child ∈ children, child.name ≠ []) →
    ahead lead start (Object.itemsAt level (Object.texts useSrc context children) ++ rest) <:+
      Lexeme.all source →
    ∃ (items : List ItemTree) (leadBehind : Text) (stop : Nat),
      ahead lead start (Object.itemsAt level (Object.texts useSrc context children) ++ rest) =
        ItemTree.lexemesAll items ++ ahead leadBehind stop rest ∧
      ItemTree.AdmissibleAll room items ∧ items.map ItemTree.name = children.map Node.name ∧
      ∀ (κ : Type) (payload : Text → κ) (slot : Nat),
        ItemTree.denoteAll payload source slot items =
          Object.asPrintedAll payload useSrc (level + 1) slot children
  | [], context, level, room, lead, start, rest, _, _, _ =>
      ⟨[], lead, start, rfl, trivial, rfl, fun _ _ _ => rfl⟩
  | .data entry :: children, context, level, room, lead, start, rest, printable, named, row => by
      have nonempty : entry.render ≠ [] := by
        unfold Data.render
        simp
      have cut : Object.itemsAt level (Object.texts useSrc context (.data entry :: children)) ++
            rest =
          Text.margin level ++
            (entry.render ++
              '\n' :: (Object.itemsAt level (Object.texts useSrc context children) ++ rest)) := by
        rw [Object.texts_data, Object.itemsAt_cons,
          Text.shift_line nonempty entry.unbroken_render]
        simp
      obtain ⟨tree, dataStop, dataRow, isName, isValue, bytes⟩ :=
        ahead_data entry level lead start
          (Object.itemsAt level (Object.texts useSrc context children) ++ rest)
      have whole := (congrArg (ahead lead start) cut).trans dataRow
      rw [whole] at row
      obtain ⟨items, leadBehind, stop, itemsLexemesEq, itemsAdmissible, itemNames, itemsRead⟩ :=
        exists_itemTrees_of_texts children _ _ _ _ _ _ printable
          (fun child member => named child (List.mem_cons_of_mem _ member))
          ((List.suffix_append _ _).trans row)
      have nameEq : tree.name.name = entry.name := by
        rw [Terminal.name, isName]
        rfl
      refine ⟨.data tree :: items, leadBehind, stop, ?_, ⟨?_, isValue, itemsAdmissible⟩, ?_, ?_⟩
      · rw [whole, itemsLexemesEq, ItemTree.lexemesAll, List.append_assoc]
      · rw [Terminal.IsName, isName]
        rfl
      · rw [List.map_cons, List.map_cons, itemNames, ItemTree.name, nameEq]
        rfl
      · intro κ payload slot
        rw [ItemTree.denoteAll, Object.asPrintedAll, nameEq, bytes, itemsRead]
  | .object nested :: children, context, level, room, lead, start, rest, printable, named,
      row => by
      have notAlone : ¬ nested.IsCodeAlone := fun alone =>
        named (.object nested) List.mem_cons_self alone.1
      have cut : Object.itemsAt level (Object.texts useSrc context (.object nested :: children)) ++
            rest =
          Object.pragmaAt useSrc level nested.debug ++
            (Text.shift level
                (Object.enclose nested.name (nested.itemTexts useSrc context)) ++
              '\n' :: (Object.itemsAt level (Object.texts useSrc context children) ++ rest)) := by
        rw [Object.texts_object, Object.itemsAt_cons, Object.text_of_enclosed notAlone,
          Object.shift_pragmaLine]
        simp
      obtain ⟨pragma, pragmaLead, pragmaStop, pragmaRow, lists, sameDebug⟩ :=
        ahead_pragmaAt useSrc level nested.debug lead start
          (Text.shift level (Object.enclose nested.name (nested.itemTexts useSrc context)) ++
            '\n' :: (Object.itemsAt level (Object.texts useSrc context children) ++ rest))
      have whole := (congrArg (ahead lead start) cut).trans pragmaRow
      rw [whole] at row
      obtain ⟨tree, treeStop, treeLexemesEq, treeAdmissible, nameEq, treeRead⟩ :=
        exists_objectTree_of_enclose nested _ _ _ _ _ _ printable.1
          ((List.suffix_append _ _).trans row)
      rw [treeLexemesEq, ahead_space (c := '\n') rfl] at row
      obtain ⟨items, leadBehind, stop, itemsLexemesEq, itemsAdmissible, itemNames, itemsRead⟩ :=
        exists_itemTrees_of_texts children _ _ _ _ _ _ printable.2
          (fun child member => named child (List.mem_cons_of_mem _ member))
          ((List.suffix_append _ _).trans ((List.suffix_append _ _).trans row))
      refine ⟨.object pragma tree :: items, leadBehind, stop, ?_,
        ⟨lists, treeAdmissible, itemsAdmissible⟩, ?_, ?_⟩
      · rw [whole, treeLexemesEq, ahead_space (c := '\n') rfl, itemsLexemesEq,
          ItemTree.lexemesAll, List.append_assoc, List.append_assoc]
      · rw [List.map_cons, List.map_cons, itemNames, ItemTree.name, nameEq]
        rfl
      · intro κ payload slot
        rw [ItemTree.denoteAll, Object.asPrintedAll,
          treeRead κ payload pragma (some slot) sameDebug, itemsRead]

end

end

/-- The text of code that stands alone has an admissible derivation, whatever the limit. -/
theorem exists_rootTree_of_code (limit : Nat) {own : Payload} (printable : own.IsPrintable)
    (context : Context) (useSrc : Bool) (debug : Option DebugBundle) {source : Text}
    (sourceEq : Text.shift 0
      ((if useSrc then Object.pragmaLine debug else []) ++ Code.print context own) = source) :
    ∃ tree : RootTree, tree.lexemes = Lexeme.all source ∧ tree.Admissible limit ∧
      ∀ (κ : Type) (payload : Text → κ), tree.denote payload source =
        { (Object.unnamed.setCode (payload (own.bodyAt 0)) none : Object κ) with
          debug := Object.rereadDebug useSrc debug } := by
  obtain ⟨block, content, blockPrintable⟩ := printable
  have cut : Text.shift 0 (Code.print context own) =
      '\x7b' :: (block.bodyAt 0 ++ ['\x7d']) := by
    rw [own.print_of_block content, ← List.nil_append block.render,
      Block.shift_render blockPrintable.normal List.not_mem_nil]
    rfl
  rw [Object.shift_pragmaLine, cut] at sourceEq
  obtain ⟨pragma, pragmaLead, pragmaStop, pragmaRow, lists, sameDebug⟩ :=
    ahead_pragmaAt useSrc 0 debug [] 0 ('\x7b' :: (block.bodyAt 0 ++ ['\x7d']))
  obtain ⟨tree, stop, treeRow, body⟩ := ahead_block blockPrintable 0 pragmaLead pragmaStop []
  rw [sourceEq, ← all_eq_ahead, treeRow, ahead_nil] at pragmaRow
  have row : tree.lexemes ++ [] <:+ Lexeme.all source := by
    rw [pragmaRow]
    exact List.suffix_append _ _
  refine ⟨.block pragma tree, ?_, lists, ?_⟩
  · rw [pragmaRow, List.append_nil]
    rfl
  · intro κ payload
    rw [RootTree.denote, BlockTree.body_eq source row, body, sameDebug,
      Payload.bodyAt_of_block content]

/-- The text of a printable tree has an admissible derivation, which denotes the tree as it was
printed. -/
theorem exists_rootTree_of_print {limit : Nat} {object : Object Payload}
    (printable : object.Printable limit) (selection : Selection) (sources : SourceProvider) :
    ∃ (tree : RootTree) (level : Nat),
      tree.lexemes = Lexeme.all (object.print selection sources) ∧ tree.Admissible limit ∧
      ∀ (κ : Type) (payload : Text → κ),
        tree.denote payload (object.print selection sources) =
          object.asPrinted payload selection.useSrc level none := by
  rw [Object.print_eq_text, ← Text.shift_zero (object.text _ _)]
  by_cases alone : object.IsCodeAlone
  · obtain ⟨name, code, analysis, debug, slot, children⟩ := object
    obtain ⟨-, codePrintable, -, -⟩ := printable
    obtain ⟨rfl, hasCode, rfl⟩ := alone
    obtain ⟨own, rfl⟩ := Option.isSome_iff_exists.mp hasCode
    obtain ⟨tree, derived, admissible, denoted⟩ :=
      exists_rootTree_of_code limit (codePrintable own rfl) _ selection.useSrc debug rfl
    exact ⟨tree, 0, derived, admissible, denoted⟩
  · rw [Object.text_of_enclosed alone, Object.shift_pragmaLine]
    generalize sourceEq : Object.pragmaAt selection.useSrc 0 object.debug ++ Text.shift 0
      (Object.enclose object.name
        (object.itemTexts selection.useSrc ⟨selection, sources, none⟩)) = source
    obtain ⟨pragma, pragmaLead, pragmaStop, pragmaRow, lists, sameDebug⟩ :=
      ahead_pragmaAt selection.useSrc 0 object.debug [] 0
        (Text.shift 0 (Object.enclose object.name
          (object.itemTexts selection.useSrc ⟨selection, sources, none⟩)))
    rw [sourceEq, ← all_eq_ahead] at pragmaRow
    have row : ahead pragmaLead pragmaStop
        (Text.shift 0 (Object.enclose object.name
          (object.itemTexts selection.useSrc ⟨selection, sources, none⟩)) ++ []) <:+
        Lexeme.all source := by
      rw [pragmaRow, List.append_nil]
      exact List.suffix_append _ _
    obtain ⟨tree, stop, treeLexemesEq, treeAdmissible, -, treeRead⟩ :=
      exists_objectTree_of_enclose source selection.useSrc object _ _ _ _ _ _ printable row
    rw [List.append_nil, ahead_nil, List.append_nil] at treeLexemesEq
    refine ⟨.object pragma tree, 1, ?_, ⟨lists, treeAdmissible⟩,
      fun κ payload => treeRead κ payload pragma none sameDebug⟩
    rw [pragmaRow, treeLexemesEq]
    rfl

/-- What is printed of a printable tree is read as what is left of the tree. -/
theorem read_print {options : ReadOptions} {object : Object Payload}
    (printable : object.Printable options.limit) (selection : Selection)
    (sources : SourceProvider) :
    Object.read options (object.print selection sources) =
      .ok (object.reread options.dialect selection.useSrc none) := by
  obtain ⟨tree, level, derived, admissible, denoted⟩ :=
    exists_rootTree_of_print printable selection sources
  have payloadEq : options.reader.payload = Payload.ofBody options.dialect := rfl
  rw [Object.read, read_of_derivation options.reader _ derived admissible, denoted, payloadEq,
    Object.asPrinted_eq_reread _ _ object _ _ _ printable]

end YulTree.Grammar

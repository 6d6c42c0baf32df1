import YulTree.Proofs.Reader.Grammar
import YulTree.Proofs.Reader.Resume
import YulTree.Proofs.Token.Shape

/-!
# Reading what is derived

An admissible derivation of the lexemes of a source is read as the object that it denotes
(`read_of_derivation`).
-/

namespace YulTree.Grammar

open Reader

theorem Terminal.readText_eq_ok_iff (literal : Terminal .stringLiteral) (name : Text) :
    readText literal.lexeme.token = .ok name ↔ literal.name? = some name := by
  unfold readText Terminal.name? Terminal.bytes?
  cases Text.Quoted.decodeLiteral literal.lexeme.token.text with
  | error escape => simp [Except.toOption]
  | ok bytes =>
      simp only [Except.toOption, Option.bind_some]
      cases Text.ofBytes? bytes <;> simp

theorem Terminal.readText_of_isName {literal : Terminal .stringLiteral}
    (isName : literal.IsName) : readText literal.lexeme.token = .ok literal.name := by
  obtain ⟨name, found⟩ := Option.isSome_iff_exists.mp isName
  rw [readText_eq_ok_iff, Terminal.name, found]
  rfl

theorem Terminal.readPragma_eq_ok_iff (pragma : Terminal .pragma) (table : SourceTable) :
    readPragma pragma.lexeme.token = .ok table ↔ pragma.table? = some table := by
  unfold readPragma Terminal.table?
  rw [mapError_eq_ok_iff]
  cases SourceTable.ofPayload ((pragmaPayload? pragma.lexeme.token.text).getD []) <;>
    simp [Except.toOption]

theorem ValueTree.readBytes_eq_ok_iff {source : Text} (value : ValueTree)
    (member : value.lexeme ∈ Lexeme.all source) (bytes : Bytes) :
    readBytes value.lexeme.token = .ok bytes ↔ value.IsValue ∧ value.bytes = bytes := by
  cases value with
  | hex literal =>
      have isHex : literal.lexeme.token.kind = .hexLiteral := literal.isKind
      have valued : ∀ c ∈ hexDigits literal.lexeme.token.text,
          (Text.hexDigitValue? c).isSome = true :=
        Lexeme.hexDigitValue?_isSome member literal.isKind
      have paired := Bytes.ofHex?_isSome_iff valued
      simp only [ValueTree.lexeme, ValueTree.IsValue, ValueTree.bytes, Terminal.digits,
        ← paired, readBytes, isHex]
      cases Bytes.ofHex? (hexDigits literal.lexeme.token.text) <;> simp
  | string literal =>
      have isString : literal.lexeme.token.kind = .stringLiteral := literal.isKind
      simp only [ValueTree.lexeme, ValueTree.IsValue, ValueTree.bytes, Terminal.bytes?,
        readBytes, isString, mapError_eq_ok_iff]
      cases Text.Quoted.decodeLiteral literal.lexeme.token.text <;> simp [Except.toOption]

theorem setPragma_table {κ : Type} (object : Object κ) (clean : object.debug = none)
    (pragma : Option (Terminal .pragma)) :
    object.setPragma (pragma.bind Terminal.table?) = { object with debug := bundle pragma } := by
  unfold bundle
  cases pragma.bind Terminal.table? with
  | none =>
      cases object
      rw [Option.map_none, ← clean]
      rfl
  | some table => rfl

section

variable {κ : Type} (reader : Reader κ) (source : Text) (size : Nat)

theorem suffix_of_eq_append {front row whole : List Lexeme} (cut : front ++ row = whole) :
    row ++ [] <:+ whole := by
  rw [List.append_nil, ← cut]
  exact List.suffix_append _ _

/-- A block's place among the lexemes of a source. -/
theorem BlockTree.exists_cut {block : BlockTree} {rest : List Lexeme}
    (row : block.lexemes ++ rest <:+ Lexeme.all source) :
    ∃ before, Lexeme.all source =
      before ++ block.opening.lexeme :: (block.inner ++ block.closing.lexeme :: rest) := by
  obtain ⟨before, whole⟩ := row
  refine ⟨before, ?_⟩
  rw [← whole, BlockTree.lexemes, List.cons_append, List.append_assoc]
  rfl

/-- The body of a block is what its lexemes cover. -/
theorem BlockTree.body_eq {block : BlockTree} {rest : List Lexeme}
    (row : block.lexemes ++ rest <:+ Lexeme.all source) :
    block.body source = Lexeme.text block.inner ++ block.closing.lexeme.lead := by
  obtain ⟨before, cut⟩ := block.exists_cut source row
  rw [BlockTree.body, Lexeme.slice?_between cut]
  rfl

/-- A block ends where its derivation ends. -/
theorem BlockTree.close?_eq {block : BlockTree} {rest : List Lexeme}
    (row : block.lexemes ++ rest <:+ Lexeme.all source) (place : Span) :
    (OpenBlock.start place).close? (block.inner ++ block.closing.lexeme :: rest) =
      some (block.body source, rest) := by
  refine OpenBlock.close?_eq_some_iff.mpr
    ⟨block.inner, block.closing.lexeme, rfl, block.closing.isKind, ?_, ?_⟩
  · exact balanced_iff.mp block.balanced
  · exact block.body_eq source row

theorem resume_codeTree {code : CodeTree} {level : Level κ} {outer : List (Level κ)}
    {rest : List Lexeme}
    (row : codeLexemes (some code) ++ rest <:+ Lexeme.all source) :
    reader.resume size (.opened level outer) (codeLexemes (some code) ++ rest) =
      reader.resume size
        (.items
          { level with
            object := level.object.setCode (reader.payload (code.block.body source)) none }
          outer) rest := by
  have isKeyword : code.keyword.lexeme.token.kind = .codeKeyword := code.keyword.isKind
  have isOpening : code.block.opening.lexeme.token.kind = .openBrace :=
    code.block.opening.isKind
  have keywordStep : reader.step (.opened level outer) code.keyword.lexeme =
      .ok (.codeKeyword level outer) := by
    simp only [Reader.step, isKeyword]
  have openingStep : reader.step (.codeKeyword level outer) code.block.opening.lexeme =
      .ok (.code (.start code.block.opening.lexeme.token.span) level outer) := by
    simp only [Reader.step, isOpening]
  have blockRow : code.block.lexemes ++ rest <:+ Lexeme.all source :=
    (List.suffix_cons _ _).trans row
  rw [codeLexemes, BlockTree.lexemes, List.cons_append, List.cons_append, List.append_assoc,
    resume_of_step keywordStep, resume_of_step openingStep, resume_code, List.singleton_append,
    code.block.close?_eq source blockRow]

theorem resume_dataTree {entry : DataTree} {level : Level κ} {outer : List (Level κ)}
    {rest : List Lexeme} (row : entry.lexemes ++ rest <:+ Lexeme.all source)
    (isName : entry.name.IsName) (isValue : entry.value.IsValue) {grown : Object κ}
    (attached : level.object.attach (.data ⟨entry.name.name, entry.value.bytes⟩) = .ok grown) :
    reader.resume size (.items level outer) (entry.lexemes ++ rest) =
      reader.resume size (.items { level with object := grown } outer) rest := by
  have isKeyword : entry.keyword.lexeme.token.kind = .dataKeyword := entry.keyword.isKind
  have isString : entry.name.lexeme.token.kind = .stringLiteral := entry.name.isKind
  have keywordStep : reader.step (.items level outer) entry.keyword.lexeme =
      .ok (.dataKeyword level outer) := by
    simp only [Reader.step, itemStep, isKeyword]
  have nameStep : reader.step (.dataKeyword level outer) entry.name.lexeme =
      .ok (.dataName entry.name.name entry.name.lexeme.token.span level outer) := by
    simp only [Reader.step, isString, Terminal.readText_of_isName isName]
    rfl
  have member : entry.value.lexeme ∈ Lexeme.all source :=
    row.subset (by simp [DataTree.lexemes])
  have bytesRead : readBytes entry.value.lexeme.token = .ok entry.value.bytes :=
    (ValueTree.readBytes_eq_ok_iff _ member _).mpr ⟨isValue, rfl⟩
  have valueStep :
      reader.step (.dataName entry.name.name entry.name.lexeme.token.span level outer)
          entry.value.lexeme =
        .ok (.items { level with object := grown } outer) := by
    simp only [Reader.step, bytesRead, Except.bind, Level.attach, attached]
    rfl
  rw [DataTree.lexemes, List.cons_append, List.cons_append, List.cons_append,
    List.nil_append, resume_of_step keywordStep, resume_of_step nameStep,
    resume_of_step valueStep]

/-- The keyword of a nested object, behind its pragma. -/
theorem resume_nested {pragma : Option (Terminal .pragma)} (lists : ListsTable pragma)
    {keyword : Terminal .objectKeyword} {level : Level κ} {outer : List (Level κ)}
    (room : outer.length + 1 < reader.limit) (rest : List Lexeme) :
    reader.resume size (.items level outer)
        (pragmaLexemes pragma ++ keyword.lexeme :: rest) =
      reader.resume size (.keyword (pragma.bind Terminal.table?) (level :: outer)) rest := by
  have isKeyword : keyword.lexeme.token.kind = .objectKeyword := keyword.isKind
  have enough : ¬ reader.limit ≤ (level :: outer).length := by
    rw [List.length_cons]
    omega
  cases pragma with
  | none =>
      have keywordStep : reader.step (.items level outer) keyword.lexeme =
          .ok (.keyword none (level :: outer)) := by
        simp only [Reader.step, itemStep, isKeyword, beginObject, if_neg enough]
      exact resume_of_step keywordStep size rest
  | some pragma =>
      obtain ⟨table, listed⟩ := Option.isSome_iff_exists.mp (lists pragma rfl)
      have isPragma : pragma.lexeme.token.kind = .pragma := pragma.isKind
      have pragmaStep : reader.step (.items level outer) pragma.lexeme =
          .ok (.pragma table level outer) := by
        simp only [Reader.step, itemStep, isPragma,
          (Terminal.readPragma_eq_ok_iff pragma table).mpr listed]
        rfl
      have keywordStep : reader.step (.pragma table level outer) keyword.lexeme =
          .ok (.keyword (some table) (level :: outer)) := by
        simp only [Reader.step, isKeyword, beginObject, if_neg enough]
      have lexemesEq : pragmaLexemes (some pragma) ++ keyword.lexeme :: rest =
          pragma.lexeme :: keyword.lexeme :: rest := rfl
      rw [lexemesEq, resume_of_step pragmaStep, resume_of_step keywordStep, Option.bind_some,
        listed]

/-- An object's head, up to its opening brace. -/
theorem resume_head {name : Terminal .stringLiteral} (isName : name.IsName)
    (opening : Terminal .openBrace) (pragma : Option (Terminal .pragma))
    (outer : List (Level κ)) (rest : List Lexeme) :
    reader.resume size (.keyword (pragma.bind Terminal.table?) outer)
        (name.lexeme :: opening.lexeme :: rest) =
      reader.resume size
        (.opened
          ⟨{ (Object.new name.name : Object κ) with debug := bundle pragma },
            name.lexeme.token.span, opening.lexeme.token.span⟩ outer) rest := by
  have isString : name.lexeme.token.kind = .stringLiteral := name.isKind
  have isOpening : opening.lexeme.token.kind = .openBrace := opening.isKind
  have nameStep :
      reader.step (.keyword (pragma.bind Terminal.table?) outer) name.lexeme =
        .ok (.name (pragma.bind Terminal.table?) name.name name.lexeme.token.span outer) := by
    simp only [Reader.step, isString, Terminal.readText_of_isName isName]
    rfl
  have openingStep :
      reader.step
          (.name (pragma.bind Terminal.table?) name.name name.lexeme.token.span outer)
          opening.lexeme =
        .ok (.opened
          ⟨(Object.new name.name).setPragma (pragma.bind Terminal.table?),
            name.lexeme.token.span, opening.lexeme.token.span⟩ outer) := by
    simp only [Reader.step, isOpening]
  rw [resume_of_step nameStep, resume_of_step openingStep, setPragma_table _ rfl]

/-- Behind the opening brace an object without code is read like its items. -/
theorem resume_opened {level : Level κ} {outer : List (Level κ)} {lexeme : Lexeme}
    (noCode : lexeme.kind ≠ .codeKeyword) (rest : List Lexeme) :
    reader.resume size (.opened level outer) (lexeme :: rest) =
      reader.resume size (.items level outer) (lexeme :: rest) := by
  have sameStep : reader.step (.opened level outer) lexeme =
      reader.step (.items level outer) lexeme := by
    simp only [Reader.step]
    split
    · next isCode => exact absurd isCode noCode
    · rfl
  rw [resume_cons, resume_cons, sameStep]

theorem ObjectTree.denote_slot (tree : ObjectTree) (pragma : Option (Terminal .pragma))
    (slot : Nat) :
    Node.inSlot slot (.object (tree.denote reader.payload source pragma none)) =
      .object (tree.denote reader.payload source pragma (some slot)) := by
  cases tree
  rfl

theorem ObjectTree.name_denote (tree : ObjectTree) (pragma : Option (Terminal .pragma))
    (slot : Option Nat) :
    (tree.denote reader.payload source pragma slot).name = tree.name.name := by
  cases tree
  rfl

theorem ObjectTree.Admissible.room {tree : ObjectTree} {room : Nat}
    (admissible : tree.Admissible room) : 0 < room := by
  cases tree
  exact admissible.1

/-- The first lexeme behind an object's code is no keyword of code. -/
theorem ItemTree.lexemesAll_head (items : List ItemTree) (closing : Terminal .closeBrace)
    (rest : List Lexeme) :
    ∃ lexeme others, ItemTree.lexemesAll items ++ closing.lexeme :: rest = lexeme :: others ∧
      lexeme.kind ≠ .codeKeyword := by
  cases items with
  | nil => exact ⟨closing.lexeme, rest, rfl, by rw [closing.isKind]; decide⟩
  | cons item items =>
      cases item with
      | data entry =>
          refine ⟨entry.keyword.lexeme, _, rfl, ?_⟩
          rw [entry.keyword.isKind]
          decide
      | object pragma nested =>
          cases pragma with
          | none =>
              cases nested with
              | mk keyword =>
                  refine ⟨keyword.lexeme, _, rfl, ?_⟩
                  rw [keyword.isKind]
                  decide
          | some pragma =>
              refine ⟨pragma.lexeme, _, rfl, ?_⟩
              rw [pragma.isKind]
              decide

/-- What an object encloses, among the lexemes of a source. -/
theorem ObjectTree.inner_suffix {tree : ObjectTree} {rest : List Lexeme}
    (row : tree.lexemes ++ rest <:+ Lexeme.all source) :
    codeLexemes tree.code ++ (ItemTree.lexemesAll tree.items ++ tree.closing.lexeme :: rest) <:+
      Lexeme.all source := by
  cases tree with
  | mk keyword name opening code items closing =>
      refine List.IsSuffix.trans ⟨[keyword.lexeme, name.lexeme, opening.lexeme], ?_⟩ row
      simp [ObjectTree.lexemes]

mutual

/-- An admissible object is read as what it denotes. -/
theorem resume_objectTree : ∀ (tree : ObjectTree) (pragma : Option (Terminal .pragma))
    (outer : List (Level κ)) (rest : List Lexeme),
    tree.Admissible (reader.limit - outer.length) →
    tree.lexemes ++ rest <:+ Lexeme.all source →
    ∃ others, tree.lexemes = tree.keyword.lexeme :: others ∧
      reader.resume size (.keyword (pragma.bind Terminal.table?) outer) (others ++ rest) =
        (endObject
          ⟨tree.denote reader.payload source pragma none, tree.name.lexeme.token.span,
            tree.opening.lexeme.token.span⟩ outer).bind (reader.resume size · rest)
  | { keyword, name, opening, code, items, closing }, pragma, outer, rest, admissible, row => by
      obtain ⟨room, isName, namesFit, itemsAdmissible⟩ := admissible
      refine ⟨_, rfl, ?_⟩
      have isClosing : closing.lexeme.token.kind = .closeBrace := closing.isKind
      have innerRow := ObjectTree.inner_suffix source row
      have itemsRow :
          ItemTree.lexemesAll items ++ closing.lexeme :: rest <:+ Lexeme.all source :=
        (List.suffix_append _ _).trans innerRow
      have roomInside : reader.limit - outer.length - 1 = reader.limit - (outer.length + 1) := by
        omega
      rw [roomInside] at itemsAdmissible
      have closingStep : ∀ level : Level κ,
          reader.resume size (.items level outer) (closing.lexeme :: rest) =
            (endObject level outer).bind (reader.resume size · rest) := by
        intro level
        rw [resume_cons]
        simp only [Reader.step, itemStep, isClosing]
      rw [List.cons_append, List.cons_append, List.append_assoc, List.append_assoc,
        List.singleton_append, resume_head reader size isName]
      cases code with
      | none =>
          obtain ⟨lexeme, others, rowEq, noCode⟩ :=
            ItemTree.lexemesAll_head items closing rest
          rw [codeLexemes, List.nil_append, rowEq, resume_opened reader size noCode, ← rowEq,
            resume_itemTrees items _ outer (closing.lexeme :: rest) namesFit itemsAdmissible
              itemsRow, closingStep]
          rfl
      | some code =>
          rw [resume_codeTree reader source size innerRow,
            resume_itemTrees items _ outer (closing.lexeme :: rest) namesFit itemsAdmissible
              itemsRow, closingStep]
          rfl

/-- Admissible items are read as what they denote. -/
theorem resume_itemTrees : ∀ (items : List ItemTree) (level : Level κ)
    (outer : List (Level κ)) (rest : List Lexeme),
    NamesFit level.object.name (level.object.childNames ++ items.map ItemTree.name) →
    ItemTree.AdmissibleAll (reader.limit - (outer.length + 1)) items →
    ItemTree.lexemesAll items ++ rest <:+ Lexeme.all source →
    reader.resume size (.items level outer) (ItemTree.lexemesAll items ++ rest) =
      reader.resume size
        (.items
          { level with
            object :=
              { level.object with
                children :=
                  level.object.children ++
                    ItemTree.denoteAll reader.payload source level.object.children.length
                      items } } outer) rest
  | [], ⟨object, nameSpan, braceSpan⟩, outer, rest, _, _, _ => by
      cases object with
      | mk name code analysis debug slot children =>
          rw [ItemTree.lexemesAll, ItemTree.denoteAll, List.append_nil, List.nil_append]
  | .data entry :: items, level, outer, rest, namesFit, admissible, row => by
      obtain ⟨isName, isValue, itemsAdmissible⟩ := admissible
      rw [ItemTree.lexemesAll, List.append_assoc] at row ⊢
      have attached := Object.attach_of_namesFit (.data ⟨entry.name.name, entry.value.bytes⟩)
        namesFit
      rw [resume_dataTree reader source size row isName isValue attached,
        resume_itemTrees items _ outer rest (Object.namesFit_grow_iff.mpr namesFit)
          itemsAdmissible ((List.suffix_append _ _).trans row)]
      simp [ItemTree.denoteAll, Object.grow, Node.inSlot]
  | .object pragma nested :: items, level, outer, rest, namesFit, admissible, row => by
      obtain ⟨lists, nestedAdmissible, itemsAdmissible⟩ := admissible
      rw [ItemTree.lexemesAll, List.append_assoc, List.append_assoc] at row ⊢
      have nestedRow : nested.lexemes ++ (ItemTree.lexemesAll items ++ rest) <:+
          Lexeme.all source := (List.suffix_append _ _).trans row
      have room : outer.length + 1 < reader.limit := by
        have roomInside := nestedAdmissible.room
        omega
      obtain ⟨others, nestedLexemes, nestedRead⟩ :=
        resume_objectTree nested pragma (level :: outer) (ItemTree.lexemesAll items ++ rest)
          nestedAdmissible nestedRow
      have nameEq : (Node.object (nested.denote reader.payload source pragma none)).name =
          nested.name.name := ObjectTree.name_denote reader source nested pragma none
      have fits : NamesFit level.object.name
          (level.object.childNames ++
            (Node.object (nested.denote reader.payload source pragma none)).name ::
              items.map ItemTree.name) := by
        rw [nameEq]
        exact namesFit
      have ended :
          endObject
            ⟨nested.denote reader.payload source pragma none, nested.name.lexeme.token.span,
              nested.opening.lexeme.token.span⟩ (level :: outer) =
            .ok (.items
              { level with
                object :=
                  level.object.grow (.object (nested.denote reader.payload source pragma none)) }
              outer) := by
        rw [endObject, Level.attach, Object.attach_of_namesFit _ fits]
        rfl
      rw [nestedLexemes, List.cons_append, resume_nested reader size lists room, nestedRead,
        ended, Except.bind,
        resume_itemTrees items _ outer rest (Object.namesFit_grow_iff.mpr fits) itemsAdmissible
          ((List.suffix_append _ _).trans nestedRow)]
      simp [ItemTree.denoteAll, Object.grow, ObjectTree.denote_slot]

end

/-- The pragma in front of a whole text. -/
theorem resume_start {pragma : Option (Terminal .pragma)} (lists : ListsTable pragma)
    (rest : List Lexeme) :
    reader.resume size (.start none) (pragmaLexemes pragma ++ rest) =
      reader.resume size (.start (pragma.bind Terminal.table?)) rest := by
  cases pragma with
  | none => rfl
  | some pragma =>
      obtain ⟨table, listed⟩ := Option.isSome_iff_exists.mp (lists pragma rfl)
      have isPragma : pragma.lexeme.token.kind = .pragma := pragma.isKind
      have pragmaStep : reader.step (.start none) pragma.lexeme = .ok (.start (some table)) := by
        simp only [Reader.step, startStep, isPragma,
          (Terminal.readPragma_eq_ok_iff pragma table).mpr listed]
        rfl
      have lexemesEq : pragmaLexemes (some pragma) ++ rest = pragma.lexeme :: rest := rfl
      rw [lexemesEq, resume_of_step pragmaStep, Option.bind_some, listed]

/-- A whole text is read as what an admissible derivation of it denotes. -/
theorem read_of_derivation {tree : RootTree} (derived : tree.lexemes = Lexeme.all source)
    (admissible : tree.Admissible reader.limit) :
    reader.read source = .ok (tree.denote reader.payload source) := by
  rw [read_eq_resume, ← derived]
  cases tree with
  | block pragma lone =>
      have isOpening : lone.opening.lexeme.token.kind = .openBrace := lone.opening.isKind
      have openingStep :
          reader.step (.start (pragma.bind Terminal.table?)) lone.opening.lexeme =
            .ok (.loneBlock (pragma.bind Terminal.table?)
              (.start lone.opening.lexeme.token.span)) := by
        simp only [Reader.step, startStep, isOpening]
      have row := suffix_of_eq_append derived
      rw [RootTree.lexemes, resume_start reader _ admissible, BlockTree.lexemes,
        resume_of_step openingStep, resume_loneBlock, lone.close?_eq source row]
      exact congrArg Except.ok (setPragma_table _ rfl pragma)
  | object pragma outermost =>
      obtain ⟨lists, outermostAdmissible⟩ := admissible
      have row := suffix_of_eq_append derived
      obtain ⟨others, outermostLexemes, outermostRead⟩ :=
        resume_objectTree reader source source.byteSize outermost pragma [] [] outermostAdmissible
          row
      have isKeyword : outermost.keyword.lexeme.token.kind = .objectKeyword :=
        outermost.keyword.isKind
      have enough : ¬ reader.limit ≤ ([] : List (Level κ)).length := by
        have room := outermostAdmissible.room
        rw [List.length_nil]
        omega
      have keywordStep :
          reader.step (.start (pragma.bind Terminal.table?)) outermost.keyword.lexeme =
            .ok (.keyword (pragma.bind Terminal.table?) []) := by
        simp only [Reader.step, startStep, isKeyword, beginObject, if_neg enough]
      rw [RootTree.lexemes, resume_start reader _ lists, outermostLexemes,
        resume_of_step keywordStep, ← List.append_nil others, outermostRead]
      rfl

end

end YulTree.Grammar

import YulTree.Proofs.Reader.Derivation

/-!
# What is read is derived

Whenever an object is read from a source, the lexemes of the source have an admissible derivation
that denotes it (`exists_derivation_of_read`).
-/

namespace YulTree.Grammar

open Reader

variable {κ : Type} {reader : Reader κ} {source : Text} {size : Nat} {object : Object κ}

/-- Input is left as long as no object is finished. -/
theorem exists_cons_of_resume {state : State κ} {lexemes : List Lexeme}
    (read : reader.resume size state lexemes = .ok object)
    (unfinished : ∀ done, state ≠ .finished done) :
    ∃ lexeme rest next, lexemes = lexeme :: rest ∧ reader.step state lexeme = .ok next ∧
      reader.resume size next rest = .ok object := by
  cases lexemes with
  | nil =>
      rw [resume_nil] at read
      cases state with
      | finished done => exact absurd rfl (unfinished done)
      | _ => cases read
  | cons lexeme rest =>
      obtain ⟨next, stepped, restRead⟩ := exists_step_of_resume read
      exact ⟨lexeme, rest, next, rfl, stepped, restRead⟩

/-- A state that is entered behind a name comes from a name literal. -/
theorem Terminal.exists_of_readText {lexeme : Lexeme} {enter : Text → State κ} {next : State κ}
    (isString : lexeme.token.kind = .stringLiteral)
    (stepped : (readText lexeme.token).map enter = .ok next) :
    ∃ literal : Terminal .stringLiteral,
      literal.lexeme = lexeme ∧ literal.IsName ∧ next = enter literal.name := by
  obtain ⟨name, decoded, rfl⟩ := exists_of_map_eq_ok stepped
  have found := (Terminal.readText_eq_ok_iff ⟨lexeme, isString⟩ name).mp decoded
  refine ⟨⟨lexeme, isString⟩, rfl, ?_, ?_⟩
  · rw [Terminal.IsName, found]
    rfl
  · rw [Terminal.name, found]
    rfl

theorem Terminal.exists_of_readPragma {lexeme : Lexeme} {table : SourceTable}
    (isPragma : lexeme.token.kind = .pragma) (listed : readPragma lexeme.token = .ok table) :
    ∃ pragma : Terminal .pragma, pragma.lexeme = lexeme ∧ pragma.table? = some table :=
  ⟨⟨lexeme, isPragma⟩, rfl, (Terminal.readPragma_eq_ok_iff ⟨lexeme, isPragma⟩ table).mp listed⟩

theorem ValueTree.exists_of_readBytes {lexeme : Lexeme} {bytes : Bytes}
    (member : lexeme ∈ Lexeme.all source) (decoded : readBytes lexeme.token = .ok bytes) :
    ∃ value : ValueTree, value.lexeme = lexeme ∧ value.IsValue ∧ value.bytes = bytes := by
  have isLiteral : lexeme.kind = .hexLiteral ∨ lexeme.kind = .stringLiteral := by
    unfold readBytes at decoded
    split at decoded
    · next isHex => exact .inl isHex
    · next isString => exact .inr isString
    · cases decoded
  rcases isLiteral with isHex | isString
  · exact ⟨.hex ⟨lexeme, isHex⟩, rfl,
      (ValueTree.readBytes_eq_ok_iff (.hex ⟨lexeme, isHex⟩) member bytes).mp decoded⟩
  · exact ⟨.string ⟨lexeme, isString⟩, rfl,
      (ValueTree.readBytes_eq_ok_iff (.string ⟨lexeme, isString⟩) member bytes).mp decoded⟩

theorem step_keyword {pragma : Option SourceTable} {outer : List (Level κ)} {lexeme : Lexeme}
    {next : State κ} (stepped : reader.step (.keyword pragma outer) lexeme = .ok next) :
    ∃ name : Terminal .stringLiteral, name.lexeme = lexeme ∧ name.IsName ∧
      next = .name pragma name.name lexeme.token.span outer := by
  simp only [Reader.step] at stepped
  split at stepped
  · next isString => exact Terminal.exists_of_readText isString stepped
  · cases stepped

theorem step_name {pragma : Option SourceTable} {name : Text} {nameSpan : Span}
    {outer : List (Level κ)} {lexeme : Lexeme} {next : State κ}
    (stepped : reader.step (.name pragma name nameSpan outer) lexeme = .ok next) :
    ∃ opening : Terminal .openBrace, opening.lexeme = lexeme ∧
      next =
        .opened ⟨(Object.new name).setPragma pragma, nameSpan, lexeme.token.span⟩ outer := by
  simp only [Reader.step] at stepped
  split at stepped
  · next isOpening => exact ⟨⟨lexeme, isOpening⟩, rfl, (Except.ok.inj stepped).symm⟩
  · cases stepped

theorem step_codeKeyword {level : Level κ} {outer : List (Level κ)} {lexeme : Lexeme}
    {next : State κ} (stepped : reader.step (.codeKeyword level outer) lexeme = .ok next) :
    ∃ opening : Terminal .openBrace, opening.lexeme = lexeme ∧
      next = .code (.start lexeme.token.span) level outer := by
  simp only [Reader.step] at stepped
  split at stepped
  · next isOpening => exact ⟨⟨lexeme, isOpening⟩, rfl, (Except.ok.inj stepped).symm⟩
  · cases stepped

theorem step_dataKeyword {level : Level κ} {outer : List (Level κ)} {lexeme : Lexeme}
    {next : State κ} (stepped : reader.step (.dataKeyword level outer) lexeme = .ok next) :
    ∃ name : Terminal .stringLiteral, name.lexeme = lexeme ∧ name.IsName ∧
      next = .dataName name.name lexeme.token.span level outer := by
  simp only [Reader.step] at stepped
  split at stepped
  · next isString => exact Terminal.exists_of_readText isString stepped
  · cases stepped

theorem Level.attach_eq_ok {level grown : Level κ} {node : Node κ} {nameSpan : Span}
    (attached : level.attach node nameSpan = .ok grown) :
    level.object.attach node = .ok (level.object.grow node) ∧
      grown = { level with object := level.object.grow node } := by
  unfold Level.attach at attached
  split at attached
  · next larger attachedObject =>
      obtain ⟨-, -, -, rfl⟩ := Object.attach_eq_ok_iff.mp attachedObject
      exact ⟨attachedObject, (Except.ok.inj attached).symm⟩
  · cases attached

theorem step_dataName {name : Text} {nameSpan : Span} {level : Level κ}
    {outer : List (Level κ)} {lexeme : Lexeme} {next : State κ}
    (member : lexeme ∈ Lexeme.all source)
    (stepped : reader.step (.dataName name nameSpan level outer) lexeme = .ok next) :
    ∃ value : ValueTree, value.lexeme = lexeme ∧ value.IsValue ∧
      level.object.attach (.data ⟨name, value.bytes⟩) =
        .ok (level.object.grow (.data ⟨name, value.bytes⟩)) ∧
      next =
        .items { level with object := level.object.grow (.data ⟨name, value.bytes⟩) } outer := by
  simp only [Reader.step] at stepped
  cases decoded : readBytes lexeme.token with
  | error error =>
      rw [decoded] at stepped
      cases stepped
  | ok bytes =>
      rw [decoded] at stepped
      obtain ⟨grown, attached, rfl⟩ := exists_of_map_eq_ok stepped
      obtain ⟨value, rfl, isValue, rfl⟩ := ValueTree.exists_of_readBytes member decoded
      obtain ⟨attachedObject, rfl⟩ := Level.attach_eq_ok attached
      exact ⟨value, rfl, isValue, attachedObject, rfl⟩

theorem beginObject_eq_ok {pragma : Option SourceTable} {outer : List (Level κ)}
    {token : Token} {next : State κ}
    (begun : beginObject reader pragma outer token = .ok next) :
    outer.length < reader.limit ∧ next = .keyword pragma outer := by
  unfold beginObject at begun
  split at begun
  · cases begun
  · next enough => exact ⟨Nat.lt_of_not_le enough, (Except.ok.inj begun).symm⟩

theorem endObject_eq_ok {level parent : Level κ} {outer : List (Level κ)} {next : State κ}
    (ended : endObject level (parent :: outer) = .ok next) :
    parent.object.attach (.object level.object) =
        .ok (parent.object.grow (.object level.object)) ∧
      next =
        .items { parent with object := parent.object.grow (.object level.object) } outer := by
  obtain ⟨grown, attached, rfl⟩ := exists_of_map_eq_ok ended
  obtain ⟨attachedObject, rfl⟩ := Level.attach_eq_ok attached
  exact ⟨attachedObject, rfl⟩

theorem step_items {level : Level κ} {outer : List (Level κ)} {lexeme : Lexeme}
    {next : State κ} (stepped : reader.step (.items level outer) lexeme = .ok next) :
    (∃ closing : Terminal .closeBrace,
      closing.lexeme = lexeme ∧ endObject level outer = .ok next) ∨
    (∃ keyword : Terminal .dataKeyword,
      keyword.lexeme = lexeme ∧ next = .dataKeyword level outer) ∨
    (∃ keyword : Terminal .objectKeyword,
      keyword.lexeme = lexeme ∧ outer.length + 1 < reader.limit ∧
        next = .keyword none (level :: outer)) ∨
    (∃ pragma : Terminal .pragma, ∃ table,
      pragma.lexeme = lexeme ∧ pragma.table? = some table ∧
        next = .pragma table level outer) := by
  simp only [Reader.step, itemStep] at stepped
  split at stepped
  · next isClosing => exact .inl ⟨⟨lexeme, isClosing⟩, rfl, stepped⟩
  · next isKeyword =>
      exact .inr (.inl ⟨⟨lexeme, isKeyword⟩, rfl, (Except.ok.inj stepped).symm⟩)
  · next isKeyword =>
      obtain ⟨room, rfl⟩ := beginObject_eq_ok stepped
      exact .inr (.inr (.inl ⟨⟨lexeme, isKeyword⟩, rfl, room, rfl⟩))
  · next isPragma =>
      obtain ⟨table, decoded, rfl⟩ := exists_of_map_eq_ok stepped
      obtain ⟨pragma, rfl, listed⟩ := Terminal.exists_of_readPragma isPragma decoded
      exact .inr (.inr (.inr ⟨pragma, table, rfl, listed, rfl⟩))
  · cases stepped

theorem step_pragma {table : SourceTable} {level : Level κ} {outer : List (Level κ)}
    {lexeme : Lexeme} {next : State κ}
    (stepped : reader.step (.pragma table level outer) lexeme = .ok next) :
    ∃ keyword : Terminal .objectKeyword, keyword.lexeme = lexeme ∧
      outer.length + 1 < reader.limit ∧ next = .keyword (some table) (level :: outer) := by
  simp only [Reader.step] at stepped
  split at stepped
  · next isKeyword =>
      obtain ⟨room, rfl⟩ := beginObject_eq_ok stepped
      exact ⟨⟨lexeme, isKeyword⟩, rfl, room, rfl⟩
  · cases stepped

/-- A block that has been read is one of the grammar. -/
theorem exists_block (opening : Terminal .openBrace) {lexemes rest : List Lexeme} {body : Text}
    (row : opening.lexeme :: lexemes <:+ Lexeme.all source)
    (closed : (OpenBlock.start opening.lexeme.token.span).close? lexemes = some (body, rest)) :
    ∃ block : BlockTree, opening.lexeme :: lexemes = block.lexemes ++ rest ∧
      block.body source = body := by
  obtain ⟨inner, closing, rfl, isClosing, balanced, rfl⟩ :=
    OpenBlock.close?_eq_some_iff.mp closed
  refine ⟨⟨opening, inner, ⟨closing, isClosing⟩, balanced_iff.mpr balanced⟩, ?_, ?_⟩
  · simp [BlockTree.lexemes]
  · have blockRow : (opening.lexeme :: (inner ++ [closing])) ++ rest <:+ Lexeme.all source := by
      simpa using row
    exact BlockTree.body_eq source blockRow

/-- What can be read behind an opening brace begins with code, if there is any. -/
theorem opened_cases {level : Level κ} {outer : List (Level κ)} {lexemes : List Lexeme}
    (row : lexemes <:+ Lexeme.all source)
    (read : reader.resume size (.opened level outer) lexemes = .ok object) :
    reader.resume size (.items level outer) lexemes = .ok object ∨
    ∃ (code : CodeTree) (rest : List Lexeme), lexemes = codeLexemes (some code) ++ rest ∧
      reader.resume size
        (.items
          { level with
            object := level.object.setCode (reader.payload (code.block.body source)) none }
          outer) rest = .ok object := by
  obtain ⟨lexeme, rest, next, rfl, stepped, restRead⟩ :=
    exists_cons_of_resume read (by simp)
  by_cases isKeyword : lexeme.kind = .codeKeyword
  · right
    have keywordStep : reader.step (.opened level outer) lexeme =
        .ok (.codeKeyword level outer) := by
      unfold Lexeme.kind at isKeyword
      simp only [Reader.step, isKeyword]
    rw [keywordStep] at stepped
    obtain rfl := Except.ok.inj stepped
    obtain ⟨openingLexeme, blockRest, next, rfl, stepped, blockRead⟩ :=
      exists_cons_of_resume restRead (by simp)
    obtain ⟨opening, rfl, rfl⟩ := step_codeKeyword stepped
    rw [resume_code] at blockRead
    split at blockRead
    · cases blockRead
    · next body itemsRest closed =>
        obtain ⟨block, blockLexemes, rfl⟩ :=
          exists_block _ ((List.suffix_cons _ _).trans row) closed
        refine ⟨⟨⟨lexeme, isKeyword⟩, block⟩, itemsRest, ?_, blockRead⟩
        rw [blockLexemes]
        rfl
  · left
    rw [resume_opened reader size isKeyword] at read
    exact read

/-- What can be read inside an object begins with its end or with an item. -/
theorem items_cases {level : Level κ} {outer : List (Level κ)} {lexemes : List Lexeme}
    (row : lexemes <:+ Lexeme.all source)
    (read : reader.resume size (.items level outer) lexemes = .ok object) :
    (∃ (closing : Terminal .closeBrace) (rest : List Lexeme),
      lexemes = closing.lexeme :: rest ∧
        (endObject level outer).bind (reader.resume size · rest) = .ok object) ∨
    (∃ (entry : DataTree) (rest : List Lexeme), lexemes = entry.lexemes ++ rest ∧
      entry.name.IsName ∧ entry.value.IsValue ∧
      level.object.attach (.data ⟨entry.name.name, entry.value.bytes⟩) =
        .ok (level.object.grow (.data ⟨entry.name.name, entry.value.bytes⟩)) ∧
      reader.resume size
        (.items
          { level with
            object := level.object.grow (.data ⟨entry.name.name, entry.value.bytes⟩) }
          outer) rest = .ok object) ∨
    (∃ (pragma : Option (Terminal .pragma)) (keyword : Terminal .objectKeyword)
      (rest : List Lexeme), lexemes = pragmaLexemes pragma ++ keyword.lexeme :: rest ∧
      ListsTable pragma ∧ outer.length + 1 < reader.limit ∧
      reader.resume size (.keyword (pragma.bind Terminal.table?) (level :: outer)) rest =
        .ok object) := by
  obtain ⟨lexeme, rest, next, rfl, stepped, restRead⟩ :=
    exists_cons_of_resume read (by simp)
  rcases step_items stepped with ⟨closing, rfl, ended⟩ | ⟨keyword, rfl, rfl⟩ |
    ⟨keyword, rfl, room, rfl⟩ | ⟨pragma, table, rfl, listed, rfl⟩
  · refine .inl ⟨closing, rest, rfl, ?_⟩
    rw [ended]
    exact restRead
  · obtain ⟨nameLexeme, nameRest, next, rfl, stepped, nameRead⟩ :=
      exists_cons_of_resume restRead (by simp)
    obtain ⟨name, rfl, isName, rfl⟩ := step_dataKeyword stepped
    obtain ⟨valueLexeme, valueRest, next, rfl, stepped, valueRead⟩ :=
      exists_cons_of_resume nameRead (by simp)
    have member : valueLexeme ∈ Lexeme.all source := row.subset (by simp)
    obtain ⟨value, rfl, isValue, attached, rfl⟩ := step_dataName member stepped
    exact .inr (.inl
      ⟨⟨keyword, name, value⟩, valueRest, rfl, isName, isValue, attached, valueRead⟩)
  · exact .inr (.inr ⟨none, keyword, rest, rfl, .none, room, restRead⟩)
  · obtain ⟨keywordLexeme, keywordRest, next, rfl, stepped, keywordRead⟩ :=
      exists_cons_of_resume restRead (by simp)
    obtain ⟨keyword, rfl, room, rfl⟩ := step_pragma stepped
    refine .inr (.inr ⟨some pragma, keyword, keywordRest, rfl, .some listed, room, ?_⟩)
    rw [Option.bind_some, listed]
    exact keywordRead

theorem ObjectTree.length_lexemes_pos (tree : ObjectTree) : 0 < tree.lexemes.length := by
  cases tree
  exact Nat.succ_pos _

mutual

/-- An object that has been read has an admissible derivation. -/
theorem exists_objectTree (lexemes : List Lexeme) (keyword : Terminal .objectKeyword)
    (pragma : Option (Terminal .pragma)) (outer : List (Level κ))
    (room : outer.length < reader.limit)
    (row : keyword.lexeme :: lexemes <:+ Lexeme.all source)
    (read : reader.resume size (.keyword (pragma.bind Terminal.table?) outer) lexemes =
      .ok object) :
    ∃ (tree : ObjectTree) (rest : List Lexeme), keyword.lexeme :: lexemes = tree.lexemes ++ rest ∧
      tree.Admissible (reader.limit - outer.length) ∧
      (endObject
        ⟨tree.denote reader.payload source pragma none, tree.name.lexeme.token.span,
          tree.opening.lexeme.token.span⟩ outer).bind (reader.resume size · rest) =
        .ok object := by
  obtain ⟨nameLexeme, nameRest, next, rfl, stepped, nameRead⟩ :=
    exists_cons_of_resume read (by simp)
  obtain ⟨name, rfl, isName, rfl⟩ := step_keyword stepped
  obtain ⟨openingLexeme, openingRest, next, rfl, stepped, openingRead⟩ :=
    exists_cons_of_resume nameRead (by simp)
  obtain ⟨opening, rfl, rfl⟩ := step_name stepped
  rw [setPragma_table _ rfl] at openingRead
  have openingRow : openingRest <:+ Lexeme.all source :=
    List.IsSuffix.trans ⟨[keyword.lexeme, name.lexeme, opening.lexeme], rfl⟩ row
  have roomInside : reader.limit - outer.length - 1 = reader.limit - (outer.length + 1) := by
    omega
  have roomLeft : 0 < reader.limit - outer.length := by omega
  rcases opened_cases openingRow openingRead with itemsRead | ⟨code, rest, rfl, itemsRead⟩
  · obtain ⟨items, closing, rest, rfl, namesFit, itemsAdmissible, ended⟩ :=
      exists_itemTrees openingRest _ outer (NamesFit.nil _) openingRow itemsRead
    refine ⟨⟨keyword, name, opening, none, items, closing⟩, rest, ?_, ?_, ended⟩
    · simp [ObjectTree.lexemes, codeLexemes]
    · exact ⟨roomLeft, isName, namesFit, roomInside ▸ itemsAdmissible⟩
  · obtain ⟨items, closing, rest, rfl, namesFit, itemsAdmissible, ended⟩ :=
      exists_itemTrees rest _ outer (NamesFit.nil _)
        ((List.suffix_append _ _).trans openingRow) itemsRead
    refine ⟨⟨keyword, name, opening, some code, items, closing⟩, rest, ?_, ?_, ended⟩
    · simp [ObjectTree.lexemes]
    · exact ⟨roomLeft, isName, namesFit, roomInside ▸ itemsAdmissible⟩
termination_by lexemes.length

/-- Items that have been read have admissible derivations. -/
theorem exists_itemTrees (lexemes : List Lexeme) (level : Level κ) (outer : List (Level κ))
    (fits : NamesFit level.object.name level.object.childNames)
    (row : lexemes <:+ Lexeme.all source)
    (read : reader.resume size (.items level outer) lexemes = .ok object) :
    ∃ (items : List ItemTree) (closing : Terminal .closeBrace) (rest : List Lexeme),
      lexemes = ItemTree.lexemesAll items ++ closing.lexeme :: rest ∧
      NamesFit level.object.name (level.object.childNames ++ items.map ItemTree.name) ∧
      ItemTree.AdmissibleAll (reader.limit - (outer.length + 1)) items ∧
      (endObject
        { level with
          object :=
            { level.object with
              children :=
                level.object.children ++
                  ItemTree.denoteAll reader.payload source level.object.children.length
                    items } }
        outer).bind (reader.resume size · rest) = .ok object := by
  rcases items_cases row read with ⟨closing, rest, rfl, ended⟩ |
    ⟨entry, rest, rfl, isName, isValue, attached, restRead⟩ |
    ⟨pragma, keyword, rest, rfl, lists, room, nestedRead⟩
  · refine ⟨[], closing, rest, rfl, ?_, trivial, ?_⟩
    · rw [List.map_nil, List.append_nil]
      exact fits
    · obtain ⟨⟨name, code, analysis, debug, slot, children⟩, nameSpan, braceSpan⟩ := level
      rw [ItemTree.denoteAll, List.append_nil]
      exact ended
  · have shorter : rest.length < (entry.lexemes ++ rest).length := by
      rw [List.length_append, DataTree.lexemes, List.length_cons]
      omega
    obtain ⟨items, closing, after, rfl, namesFit, itemsAdmissible, ended⟩ :=
      exists_itemTrees rest _ outer (Object.namesFit_of_attach fits attached)
        ((List.suffix_append _ _).trans row) restRead
    refine ⟨.data entry :: items, closing, after, ?_, ?_, ⟨isName, isValue, itemsAdmissible⟩,
      ?_⟩
    · rw [ItemTree.lexemesAll, List.append_assoc]
    · exact Object.namesFit_grow_iff.mp namesFit
    · simpa [ItemTree.denoteAll, Object.grow, Node.inSlot] using ended
  · obtain ⟨nested, nestedRest, nestedLexemes, nestedAdmissible, nestedEnded⟩ :=
      exists_objectTree rest keyword pragma (level :: outer) room
        ((List.suffix_append _ _).trans row) nestedRead
    obtain ⟨next, ended, restRead⟩ := exists_of_bind_eq_ok nestedEnded
    obtain ⟨attached, rfl⟩ := endObject_eq_ok ended
    rw [nestedLexemes] at row
    have shorter : nestedRest.length <
        (pragmaLexemes pragma ++ keyword.lexeme :: rest).length := by
      have positive := nested.length_lexemes_pos
      rw [nestedLexemes, List.length_append, List.length_append]
      omega
    obtain ⟨items, closing, after, rfl, namesFit, itemsAdmissible, ended⟩ :=
      exists_itemTrees nestedRest _ outer (Object.namesFit_of_attach fits attached)
        ((List.suffix_append _ _).trans ((List.suffix_append _ _).trans row)) restRead
    refine ⟨.object pragma nested :: items, closing, after, ?_, ?_,
      ⟨lists, nestedAdmissible, itemsAdmissible⟩, ?_⟩
    · rw [nestedLexemes, ItemTree.lexemesAll, List.append_assoc, List.append_assoc]
    · have nameEq : (Node.object (nested.denote reader.payload source pragma none)).name =
          nested.name.name := ObjectTree.name_denote reader source nested pragma none
      rw [List.map_cons, ItemTree.name, ← nameEq]
      exact Object.namesFit_grow_iff.mp namesFit
    · simpa [ItemTree.denoteAll, Object.grow, ObjectTree.denote_slot] using ended
termination_by lexemes.length

end

/-- Nothing may follow a whole object. -/
theorem eq_nil_of_resume_finished {done : Object κ} {lexemes : List Lexeme}
    (read : reader.resume size (.finished done) lexemes = .ok object) :
    lexemes = [] ∧ done = object := by
  cases lexemes with
  | nil => exact ⟨rfl, Except.ok.inj read⟩
  | cons lexeme rest =>
      rw [resume_cons] at read
      cases read

/-- What has been read behind a pragma, or where there is none, has an admissible derivation. -/
theorem exists_rootTree (pragma : Option (Terminal .pragma)) (lists : ListsTable pragma)
    {lexemes : List Lexeme} (row : lexemes <:+ Lexeme.all source)
    (onlyPragma : ∀ (other : Terminal .pragma) (rest : List Lexeme),
      lexemes = other.lexeme :: rest → pragma.bind Terminal.table? ≠ none)
    (read : reader.resume size (.start (pragma.bind Terminal.table?)) lexemes = .ok object) :
    ∃ tree : RootTree, tree.lexemes = pragmaLexemes pragma ++ lexemes ∧
      tree.Admissible reader.limit ∧ tree.denote reader.payload source = object := by
  obtain ⟨lexeme, rest, next, rfl, stepped, restRead⟩ :=
    exists_cons_of_resume read (by simp)
  simp only [Reader.step, startStep] at stepped
  split at stepped
  · next isPragma isNone => exact absurd isNone (onlyPragma ⟨lexeme, isPragma⟩ rest rfl)
  · next isOpening =>
      obtain rfl := Except.ok.inj stepped
      rw [resume_loneBlock] at restRead
      split at restRead
      · cases restRead
      · next body blockRest closed =>
          obtain ⟨block, blockLexemes, rfl⟩ :=
            exists_block ⟨lexeme, isOpening⟩ row closed
          obtain ⟨rfl, rfl⟩ := eq_nil_of_resume_finished restRead
          refine ⟨.block pragma block, ?_, lists, (setPragma_table _ rfl pragma).symm⟩
          rw [RootTree.lexemes, blockLexemes, List.append_nil]
  · next isKeyword =>
      obtain ⟨room, rfl⟩ := beginObject_eq_ok stepped
      obtain ⟨tree, others, cut, admissible, ended⟩ :=
        exists_objectTree rest ⟨lexeme, isKeyword⟩ pragma [] room row restRead
      obtain ⟨rfl, rfl⟩ := eq_nil_of_resume_finished ended
      refine ⟨.object pragma tree, ?_, ⟨lists, admissible⟩, rfl⟩
      rw [RootTree.lexemes, cut, List.append_nil]
  · cases stepped

/-- Whatever is read has an admissible derivation that denotes it. -/
theorem exists_derivation_of_read (read : reader.read source = .ok object) :
    ∃ tree : RootTree, tree.lexemes = Lexeme.all source ∧ tree.Admissible reader.limit ∧
      tree.denote reader.payload source = object := by
  rw [read_eq_resume] at read
  by_cases marked : ∃ (pragma : Terminal .pragma) (rest : List Lexeme),
      Lexeme.all source = pragma.lexeme :: rest
  · obtain ⟨pragma, rest, cut⟩ := marked
    rw [cut] at read
    obtain ⟨next, stepped, restRead⟩ := exists_step_of_resume read
    have isPragma : pragma.lexeme.token.kind = .pragma := pragma.isKind
    simp only [Reader.step, startStep, isPragma] at stepped
    obtain ⟨table, decoded, rfl⟩ := exists_of_map_eq_ok stepped
    have listed := (Terminal.readPragma_eq_ok_iff pragma table).mp decoded
    have isTable : (some pragma).bind Terminal.table? = some table := listed
    rw [← isTable] at restRead
    rw [cut]
    refine exists_rootTree (some pragma) (.some listed) ?_ ?_ restRead
    · rw [cut]
      exact List.suffix_cons _ _
    · rw [isTable]
      simp
  · refine exists_rootTree none .none (List.suffix_refl _) ?_ read
    intro pragma rest cut
    exact absurd ⟨pragma, rest, cut⟩ marked

/-- A source is read as an object exactly if its lexemes have an admissible derivation that
denotes that object. -/
theorem read_eq_ok_iff (reader : Reader κ) (source : Text) (object : Object κ) :
    reader.read source = .ok object ↔
      ∃ tree : RootTree, tree.lexemes = Lexeme.all source ∧ tree.Admissible reader.limit ∧
        tree.denote reader.payload source = object := by
  constructor
  · exact exists_derivation_of_read
  · rintro ⟨tree, derived, admissible, rfl⟩
    exact read_of_derivation reader source derived admissible

end YulTree.Grammar

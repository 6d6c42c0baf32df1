import YulTree.Proofs.Reader.Printed

/-!
# Trees that were read

A tree that was read is printable, because what stood between the braces of its code can stand
there again, and nothing of it is lost when it is printed and read (`read_display_of_derivation`).
-/

namespace YulTree.Grammar

/-- The body of a block can stand between braces. -/
theorem BlockTree.isEnclosed_body {source : Text} {block : BlockTree} {rest : List Lexeme}
    (row : block.lexemes ++ rest <:+ Lexeme.all source) : (block.body source).IsEnclosed := by
  rw [BlockTree.body_eq source row]
  obtain ⟨before, cut⟩ := block.exists_cut source row
  obtain ⟨front, between, back, parts, texts, kinds, -⟩ := Lexeme.parts_between cut
  have balanced : Balanced (between.map Prod.fst) := by
    rw [← Balanced.filter_iff, ← kinds]
    exact block.balanced
  rw [block.opening.isKind, block.closing.isKind] at parts
  rw [← texts]
  exact Token.isEnclosed_of_merge _ parts balanced

theorem isPrintable_ofBody {source : Text} {block : BlockTree} {rest : List Lexeme}
    (row : block.lexemes ++ rest <:+ Lexeme.all source) (dialect : Option Dialect) :
    (Payload.ofBody dialect (block.body source)).IsPrintable :=
  ⟨.ofBody (block.body source), rfl, Block.printable_ofBody (block.isEnclosed_body row)⟩

section

variable (options : ReadOptions) (source : Text)

theorem ItemTree.names_denoteAll (items : List ItemTree) (slot : Nat) :
    (ItemTree.denoteAll options.reader.payload source slot items).map Node.name =
      items.map ItemTree.name := by
  induction items generalizing slot with
  | nil => rfl
  | cons item rest inductionHypothesis =>
      cases item with
      | data entry =>
          rw [ItemTree.denoteAll, List.map_cons, inductionHypothesis, List.map_cons]
          rfl
      | object pragma nested =>
          have nameEq : (Node.object
              (nested.denote options.reader.payload source pragma (some slot))).name =
              nested.name.name :=
            ObjectTree.name_denote options.reader source nested pragma (some slot)
          rw [ItemTree.denoteAll, List.map_cons, inductionHypothesis, nameEq, List.map_cons]
          rfl

mutual

/-- An object that is denoted is printable. -/
theorem printable_denote : ∀ (tree : ObjectTree) (pragma : Option (Terminal .pragma))
    (slot : Option Nat) (room : Nat) (rest : List Lexeme), tree.Admissible room →
    tree.lexemes ++ rest <:+ Lexeme.all source →
    (tree.denote options.reader.payload source pragma slot).Printable room
  | { keyword, name, opening, code, items, closing }, pragma, slot, room, rest, admissible,
      row => by
      obtain ⟨roomLeft, -, namesFit, itemsAdmissible⟩ := admissible
      have innerRow := ObjectTree.inner_suffix source row
      refine ⟨roomLeft, ?_, ?_, ?_⟩
      · intro payload member
        cases code with
        | none => cases member
        | some code =>
            obtain rfl := Option.mem_some.mp member
            exact isPrintable_ofBody ((List.suffix_cons _ _).trans innerRow) options.dialect
      · rw [ItemTree.names_denoteAll]
        exact namesFit
      · exact printableAll_denoteAll items 0 (room - 1) _ itemsAdmissible
          ((List.suffix_append _ _).trans innerRow)

theorem printableAll_denoteAll : ∀ (items : List ItemTree) (slot room : Nat)
    (rest : List Lexeme), ItemTree.AdmissibleAll room items →
    ItemTree.lexemesAll items ++ rest <:+ Lexeme.all source →
    Object.PrintableAll room (ItemTree.denoteAll options.reader.payload source slot items)
  | [], _, _, _, _, _ => trivial
  | .data entry :: items, slot, room, rest, admissible, row => by
      rw [ItemTree.lexemesAll, List.append_assoc] at row
      exact printableAll_denoteAll items (slot + 1) room rest admissible.2.2
        ((List.suffix_append _ _).trans row)
  | .object pragma nested :: items, slot, room, rest, admissible, row => by
      rw [ItemTree.lexemesAll, List.append_assoc, List.append_assoc] at row
      have nestedRow := (List.suffix_append _ _).trans row
      exact ⟨printable_denote nested pragma (some slot) room _ admissible.2.1 nestedRow,
        printableAll_denoteAll items (slot + 1) room rest admissible.2.2
          ((List.suffix_append _ _).trans nestedRow)⟩

end

theorem rereadDebug_bundle (pragma : Option (Terminal .pragma)) :
    Object.rereadDebug true (bundle pragma) = bundle pragma := by
  unfold Object.rereadDebug bundle
  cases pragma.bind Terminal.table? <;> rfl

mutual

/-- Nothing is lost of an object that is denoted. -/
theorem reread_denote : ∀ (tree : ObjectTree) (pragma : Option (Terminal .pragma))
    (slot newSlot : Option Nat),
    (tree.denote options.reader.payload source pragma slot).reread options.dialect true newSlot =
      tree.denote options.reader.payload source pragma newSlot
  | { keyword, name, opening, code, items, closing }, pragma, slot, newSlot => by
      rw [ObjectTree.denote, ObjectTree.denote, Object.reread, rereadDebug_bundle,
        rereadAll_denoteAll items 0, Option.map_map]
      rfl

theorem rereadAll_denoteAll : ∀ (items : List ItemTree) (slot : Nat),
    Object.rereadAll options.dialect true slot
        (ItemTree.denoteAll options.reader.payload source slot items) =
      ItemTree.denoteAll options.reader.payload source slot items
  | [], _ => rfl
  | .data entry :: items, slot => by
      rw [ItemTree.denoteAll, Object.rereadAll, rereadAll_denoteAll items (slot + 1)]
  | .object pragma nested :: items, slot => by
      rw [ItemTree.denoteAll, Object.rereadAll, reread_denote nested pragma (some slot),
        rereadAll_denoteAll items (slot + 1)]

end

/-- Nothing is lost of a tree that is denoted. -/
theorem RootTree.reread_denote (tree : RootTree) :
    (tree.denote options.reader.payload source).reread options.dialect true none =
      tree.denote options.reader.payload source := by
  cases tree with
  | block pragma lone =>
      rw [RootTree.denote, Object.reread, rereadDebug_bundle]
      rfl
  | object pragma outermost => exact Grammar.reread_denote options source outermost pragma none none

end

section

variable {options : ReadOptions} {source : Text} {tree : RootTree}

/-- A tree that was read is printable if there is room, which code alone does not need. -/
theorem RootTree.exists_printable (derived : tree.lexemes = Lexeme.all source)
    (admissible : tree.Admissible options.limit) :
    ∃ room, (tree.denote options.reader.payload source).Printable room := by
  cases tree with
  | block pragma lone =>
      have row := suffix_of_eq_append derived
      refine ⟨1, Nat.one_pos, ?_, .nil _, trivial⟩
      intro payload member
      obtain rfl := Option.mem_some.mp member
      exact isPrintable_ofBody row options.dialect
  | object pragma outermost =>
      have row := suffix_of_eq_append derived
      exact ⟨options.limit, printable_denote options source outermost pragma none options.limit []
        admissible.2 row⟩

/-- What is displayed of a tree that was read has an admissible derivation, which denotes the tree
as it was printed. -/
theorem exists_printed_of_derivation (derived : tree.lexemes = Lexeme.all source)
    (admissible : tree.Admissible options.limit) :
    ∃ (again : RootTree) (level : Nat),
      again.lexemes = Lexeme.all (tree.denote options.reader.payload source).display ∧
      again.Admissible options.limit ∧
      ∀ (κ : Type) (payload : Text → κ),
        again.denote payload (tree.denote options.reader.payload source).display =
          (tree.denote options.reader.payload source).asPrinted payload true level none := by
  cases tree with
  | block pragma lone =>
      have row := suffix_of_eq_append derived
      obtain ⟨again, derivedAgain, admissibleAgain, denoted⟩ :=
        exists_rootTree_of_code options.limit (isPrintable_ofBody row options.dialect)
          (Context.enter ⟨Selection.standard, SourceProvider.absent, none⟩ (bundle pragma)) true
          (bundle pragma) (Text.shift_zero _)
      exact ⟨again, 0, derivedAgain, admissibleAgain, denoted⟩
  | object pragma outermost =>
      have row := suffix_of_eq_append derived
      exact exists_rootTree_of_print
        (printable_denote options source outermost pragma none options.limit [] admissible.2 row)
        Selection.standard SourceProvider.absent

/-- With the payloads of the reader, a tree that was read is the same as it was printed. -/
theorem asPrinted_denote (derived : tree.lexemes = Lexeme.all source)
    (admissible : tree.Admissible options.limit) (level : Nat) :
    (tree.denote options.reader.payload source).asPrinted options.reader.payload true level none =
      tree.denote options.reader.payload source := by
  obtain ⟨room, printable⟩ := RootTree.exists_printable derived admissible
  exact (Object.asPrinted_eq_reread options.dialect true _ room level none printable).trans
    (RootTree.reread_denote options source tree)

/-- What is printed of a tree that was read is read as that tree. -/
theorem read_display_of_derivation (derived : tree.lexemes = Lexeme.all source)
    (admissible : tree.Admissible options.limit) :
    Object.read options (tree.denote options.reader.payload source).display =
      .ok (tree.denote options.reader.payload source) := by
  obtain ⟨again, level, derivedAgain, admissibleAgain, denoted⟩ :=
    exists_printed_of_derivation derived admissible
  rw [Object.read, read_of_derivation options.reader _ derivedAgain admissibleAgain, denoted,
    asPrinted_denote derived admissible]

end

end YulTree.Grammar

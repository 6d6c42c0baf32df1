import Mathlib.Data.List.Forall2
import YulTree.Proofs.Reader.Derivation

/-!
# Derivations from other lexemes

A derivation uses little of its lexemes: their kinds, what literals and pragmas denote, and the
bodies of code.  If the lexemes of another source agree in this, there is a derivation from them
that denotes the same object (`RootTree.exists_carried`).
-/

namespace YulTree.Grammar

/-- The lists that an appended list is related to. -/
theorem exists_of_forall₂_append {α β : Type} {related : α → β → Prop} {front back : List α}
    {row : List β} (pairs : List.Forall₂ related (front ++ back) row) :
    ∃ first second, row = first ++ second ∧ List.Forall₂ related front first ∧
      List.Forall₂ related back second :=
  ⟨row.take front.length, row.drop front.length, (List.take_append_drop _ _).symm,
    (List.forall₂_take_append _ _ _ pairs.flip).flip,
    (List.forall₂_drop_append _ _ _ pairs.flip).flip⟩

variable {κ : Type}

/-- Lexemes of a target that say the same as those of a source: their kinds, the texts of
literals, the tables of pragmas, and the payloads between braces. -/
structure Carries (payload : Text → κ) (source target : Text) (alike : Lexeme → Lexeme → Prop) :
    Prop where
  kind : ∀ {lexeme other}, alike lexeme other → other.kind = lexeme.kind
  literal : ∀ {lexeme other}, alike lexeme other →
    lexeme.kind = .stringLiteral ∨ lexeme.kind = .hexLiteral →
      other.token.text = lexeme.token.text
  table : ∀ {pragma other : Terminal .pragma}, alike pragma.lexeme other.lexeme →
    pragma.table?.isSome → other.table? = pragma.table?
  body : ∀ {opening closing first last : Lexeme}, alike opening first → alike closing last →
    opening.kind = .openBrace → closing.kind = .closeBrace → ∀ front body back,
      source = front ++ (body ++ back) → front.byteSize = opening.token.stop →
      opening.token.stop + body.byteSize = closing.token.start →
      ∃ covered, target.slice? first.token.stop last.token.start = some covered ∧
        payload covered = payload body

section

variable {payload : Text → κ} {source target : Text} {alike : Lexeme → Lexeme → Prop}
  (carries : Carries payload source target alike)

include carries

theorem Terminal.exists_carried {kind : TokenKind} (terminal : Terminal kind) {lexeme : Lexeme}
    (same : alike terminal.lexeme lexeme) : ∃ other : Terminal kind, other.lexeme = lexeme :=
  ⟨⟨lexeme, (carries.kind same).trans terminal.isKind⟩, rfl⟩

theorem Terminal.exists_carried_string (literal : Terminal .stringLiteral) {lexeme : Lexeme}
    (same : alike literal.lexeme lexeme) :
    ∃ other : Terminal .stringLiteral, other.lexeme = lexeme ∧ other.bytes? = literal.bytes? ∧
      (other.IsName ↔ literal.IsName) ∧ other.name = literal.name := by
  obtain ⟨other, rfl⟩ := literal.exists_carried carries same
  have text := carries.literal same (.inl literal.isKind)
  have sameBytes : other.bytes? = literal.bytes? := by rw [bytes?, bytes?, text]
  have sameName : other.name? = literal.name? := by rw [name?, name?, sameBytes]
  refine ⟨other, rfl, sameBytes, ?_, ?_⟩
  · rw [IsName, IsName, sameName]
  · rw [name, name, sameName]

theorem ValueTree.exists_carried (value : ValueTree) {lexeme : Lexeme}
    (same : alike value.lexeme lexeme) :
    ∃ other : ValueTree, other.lexeme = lexeme ∧ (other.IsValue ↔ value.IsValue) ∧
      other.bytes = value.bytes := by
  cases value with
  | hex literal =>
      obtain ⟨other, rfl⟩ := literal.exists_carried carries same
      have text : other.lexeme.token.text = literal.lexeme.token.text :=
        carries.literal same (.inr literal.isKind)
      have digits : other.digits = literal.digits := by
        rw [Terminal.digits, Terminal.digits, text]
      refine ⟨.hex other, rfl, ?_, ?_⟩
      · rw [IsValue, IsValue, digits]
      · rw [bytes, bytes, digits]
  | string literal =>
      obtain ⟨other, rfl, sameBytes, -⟩ := literal.exists_carried_string carries same
      refine ⟨.string other, rfl, ?_, ?_⟩
      · rw [IsValue, IsValue, sameBytes]
      · rw [bytes, bytes, sameBytes]

theorem exists_carried_pragma {pragma : Option (Terminal .pragma)} (lists : ListsTable pragma)
    {row : List Lexeme} (same : List.Forall₂ alike (pragmaLexemes pragma) row) :
    ∃ other : Option (Terminal .pragma), pragmaLexemes other = row ∧ ListsTable other ∧
      bundle other = bundle pragma := by
  cases pragma with
  | none =>
      cases same
      exact ⟨none, rfl, .none, rfl⟩
  | some pragma =>
      obtain ⟨lexeme, rest, first, none, rfl⟩ := List.forall₂_cons_left_iff.mp same
      cases none
      obtain ⟨other, rfl⟩ := pragma.exists_carried carries first
      have listed := lists pragma rfl
      have sameTable := carries.table first listed
      refine ⟨some other, rfl, ?_, ?_⟩
      · intro terminal member
        obtain rfl := Option.mem_some.mp member
        rw [sameTable]
        exact listed
      · rw [bundle, bundle, Option.bind_some, Option.bind_some, sameTable]

theorem kinds_eq {inner row : List Lexeme} (same : List.Forall₂ alike inner row) :
    row.map Lexeme.kind = inner.map Lexeme.kind := by
  induction same with
  | nil => rfl
  | cons head _ inductionHypothesis =>
      rw [List.map_cons, List.map_cons, carries.kind head, inductionHypothesis]

theorem BlockTree.exists_carried (block : BlockTree) {rest row : List Lexeme}
    (suffix : block.lexemes ++ rest <:+ Lexeme.all source)
    (same : List.Forall₂ alike block.lexemes row) :
    ∃ other : BlockTree, other.lexemes = row ∧
      payload (other.body target) = payload (block.body source) := by
  obtain ⟨first, tailRow, opening, tailSame, rfl⟩ := List.forall₂_cons_left_iff.mp same
  obtain ⟨inner, closingRow, rfl, innerSame, closingSame⟩ := exists_of_forall₂_append tailSame
  obtain ⟨last, none, closing, noneSame, rfl⟩ := List.forall₂_cons_left_iff.mp closingSame
  cases noneSame
  obtain ⟨openBrace, rfl⟩ := block.opening.exists_carried carries opening
  obtain ⟨closeBrace, rfl⟩ := block.closing.exists_carried carries closing
  have kinds : inner.map Lexeme.kind = block.inner.map Lexeme.kind := kinds_eq carries innerSame
  refine ⟨⟨openBrace, inner, closeBrace, kinds ▸ block.balanced⟩, rfl, ?_⟩
  obtain ⟨before, whole⟩ := block.exists_cut source suffix
  obtain ⟨front, back, cut, frontSize, bodySize⟩ := Lexeme.cut_between whole
  obtain ⟨covered, slice, samePayload⟩ :=
    carries.body opening closing block.opening.isKind block.closing.isKind front _ back cut
      frontSize bodySize
  rw [block.body_eq source suffix, ← samePayload, body, slice]
  rfl

theorem exists_carried_code (code : Option CodeTree) {rest row : List Lexeme}
    (suffix : codeLexemes code ++ rest <:+ Lexeme.all source)
    (same : List.Forall₂ alike (codeLexemes code) row) :
    ∃ other : Option CodeTree, codeLexemes other = row ∧
      (other.map fun code => payload (code.block.body target)) =
        code.map fun code => payload (code.block.body source) := by
  cases code with
  | none =>
      cases same
      exact ⟨none, rfl, rfl⟩
  | some code =>
      obtain ⟨lexeme, blockRow, keyword, blockSame, rfl⟩ := List.forall₂_cons_left_iff.mp same
      obtain ⟨otherKeyword, rfl⟩ := code.keyword.exists_carried carries keyword
      obtain ⟨block, rfl, samePayload⟩ :=
        code.block.exists_carried carries ((List.suffix_cons _ _).trans suffix) blockSame
      exact ⟨some ⟨otherKeyword, block⟩, rfl, congrArg some samePayload⟩

theorem DataTree.exists_carried (entry : DataTree) {row : List Lexeme}
    (same : List.Forall₂ alike entry.lexemes row) :
    ∃ other : DataTree, other.lexemes = row ∧
      (other.name.IsName ↔ entry.name.IsName) ∧ other.name.name = entry.name.name ∧
      (other.value.IsValue ↔ entry.value.IsValue) ∧ other.value.bytes = entry.value.bytes := by
  obtain ⟨first, rest, keyword, restSame, rfl⟩ := List.forall₂_cons_left_iff.mp same
  obtain ⟨second, valueRow, name, valueSame, rfl⟩ := List.forall₂_cons_left_iff.mp restSame
  obtain ⟨third, none, value, noneSame, rfl⟩ := List.forall₂_cons_left_iff.mp valueSame
  cases noneSame
  obtain ⟨otherKeyword, rfl⟩ := entry.keyword.exists_carried carries keyword
  obtain ⟨otherName, rfl, -, isName, sameName⟩ := entry.name.exists_carried_string carries name
  obtain ⟨otherValue, rfl, isValue, bytes⟩ := entry.value.exists_carried carries value
  exact ⟨⟨otherKeyword, otherName, otherValue⟩, rfl, isName, sameName, isValue, bytes⟩

mutual

theorem ObjectTree.exists_carried : ∀ (tree : ObjectTree) (room : Nat) (rest row : List Lexeme),
    tree.Admissible room → tree.lexemes ++ rest <:+ Lexeme.all source →
    List.Forall₂ alike tree.lexemes row →
    ∃ other : ObjectTree, other.lexemes = row ∧ other.Admissible room ∧
      other.name.name = tree.name.name ∧
      ∀ (pragma marked : Option (Terminal .pragma)) (slot : Option Nat),
        bundle marked = bundle pragma →
          other.denote payload target marked slot = tree.denote payload source pragma slot
  | { keyword, name, opening, code, items, closing }, room, rest, row, admissible, suffix,
      same => by
      obtain ⟨roomLeft, nameIsName, namesFit, itemsAdmissible⟩ := admissible
      have innerSuffix := ObjectTree.inner_suffix source suffix
      obtain ⟨first, nameRow, keywordSame, nameRowSame, rfl⟩ := List.forall₂_cons_left_iff.mp same
      obtain ⟨second, openingRow, nameSame, openingRowSame, rfl⟩ :=
        List.forall₂_cons_left_iff.mp nameRowSame
      obtain ⟨third, innerRow, openingSame, innerSame, rfl⟩ :=
        List.forall₂_cons_left_iff.mp openingRowSame
      obtain ⟨codeRow, itemsRow, rfl, codeSame, itemsRowSame⟩ := exists_of_forall₂_append innerSame
      obtain ⟨itemRows, closingRow, rfl, itemsSame, closingRowSame⟩ :=
        exists_of_forall₂_append itemsRowSame
      obtain ⟨last, none, closingSame, noneSame, rfl⟩ :=
        List.forall₂_cons_left_iff.mp closingRowSame
      cases noneSame
      obtain ⟨otherKeyword, rfl⟩ := keyword.exists_carried carries keywordSame
      obtain ⟨otherName, rfl, -, isName, sameName⟩ := name.exists_carried_string carries nameSame
      obtain ⟨otherOpening, rfl⟩ := opening.exists_carried carries openingSame
      obtain ⟨otherClosing, rfl⟩ := closing.exists_carried carries closingSame
      obtain ⟨otherCode, rfl, samePayload⟩ := exists_carried_code carries code innerSuffix codeSame
      obtain ⟨otherItems, rfl, otherAdmissible, sameNames, sameNodes⟩ :=
        ItemTree.exists_carriedAll items (room - 1) (closing.lexeme :: rest) itemRows
          itemsAdmissible ((List.suffix_append _ _).trans innerSuffix) itemsSame
      refine ⟨⟨otherKeyword, otherName, otherOpening, otherCode, otherItems, otherClosing⟩, rfl,
        ⟨roomLeft, isName.mpr nameIsName, ?_, otherAdmissible⟩, sameName, ?_⟩
      · rw [sameName, sameNames]
        exact namesFit
      · intro pragma marked slot sameBundle
        rw [ObjectTree.denote, ObjectTree.denote, sameName, samePayload, sameBundle, sameNodes]

theorem ItemTree.exists_carriedAll : ∀ (items : List ItemTree) (room : Nat)
    (rest row : List Lexeme), ItemTree.AdmissibleAll room items →
    ItemTree.lexemesAll items ++ rest <:+ Lexeme.all source →
    List.Forall₂ alike (ItemTree.lexemesAll items) row →
    ∃ others : List ItemTree, ItemTree.lexemesAll others = row ∧
      ItemTree.AdmissibleAll room others ∧ others.map ItemTree.name = items.map ItemTree.name ∧
      ∀ slot, ItemTree.denoteAll payload target slot others =
        ItemTree.denoteAll payload source slot items
  | [], _, _, row, _, _, same => by
      cases same
      exact ⟨[], rfl, trivial, rfl, fun _ => rfl⟩
  | .data entry :: items, room, rest, row, admissible, suffix, same => by
      obtain ⟨nameIsName, valueIsValue, itemsAdmissible⟩ := admissible
      rw [ItemTree.lexemesAll] at same suffix
      rw [List.append_assoc] at suffix
      obtain ⟨entryRow, itemsRow, rfl, entrySame, itemsSame⟩ := exists_of_forall₂_append same
      obtain ⟨other, rfl, isName, sameName, isValue, bytes⟩ :=
        entry.exists_carried carries entrySame
      obtain ⟨others, rfl, othersAdmissible, sameNames, sameNodes⟩ :=
        ItemTree.exists_carriedAll items room rest itemsRow itemsAdmissible
          ((List.suffix_append _ _).trans suffix) itemsSame
      refine ⟨.data other :: others, rfl,
        ⟨isName.mpr nameIsName, isValue.mpr valueIsValue, othersAdmissible⟩, ?_, ?_⟩
      · rw [List.map_cons, List.map_cons, ItemTree.name, ItemTree.name, sameName, sameNames]
      · intro slot
        rw [ItemTree.denoteAll, ItemTree.denoteAll, sameName, bytes, sameNodes]
  | .object pragma nested :: items, room, rest, row, admissible, suffix, same => by
      obtain ⟨lists, nestedAdmissible, itemsAdmissible⟩ := admissible
      rw [ItemTree.lexemesAll] at same suffix
      rw [List.append_assoc, List.append_assoc] at suffix
      have nestedSuffix := (List.suffix_append _ _).trans suffix
      obtain ⟨pragmaRow, nestedRow, rfl, pragmaSame, nestedRowSame⟩ :=
        exists_of_forall₂_append same
      obtain ⟨objectRow, itemsRow, rfl, nestedSame, itemsSame⟩ :=
        exists_of_forall₂_append nestedRowSame
      obtain ⟨marked, rfl, markedLists, sameBundle⟩ :=
        exists_carried_pragma carries lists pragmaSame
      obtain ⟨other, rfl, otherAdmissible, sameName, sameObject⟩ :=
        ObjectTree.exists_carried nested room (ItemTree.lexemesAll items ++ rest) objectRow
          nestedAdmissible nestedSuffix nestedSame
      obtain ⟨others, rfl, othersAdmissible, sameNames, sameNodes⟩ :=
        ItemTree.exists_carriedAll items room rest itemsRow itemsAdmissible
          ((List.suffix_append _ _).trans nestedSuffix) itemsSame
      refine ⟨.object marked other :: others, rfl,
        ⟨markedLists, otherAdmissible, othersAdmissible⟩, ?_, ?_⟩
      · rw [List.map_cons, List.map_cons, ItemTree.name, ItemTree.name, sameName, sameNames]
      · intro slot
        rw [ItemTree.denoteAll, ItemTree.denoteAll, sameObject pragma marked _ sameBundle,
          sameNodes]

end

/-- A derivation of a whole source carries over to lexemes that say the same. -/
theorem RootTree.exists_carried {tree : RootTree} {limit : Nat} {row : List Lexeme}
    (derived : tree.lexemes = Lexeme.all source) (admissible : tree.Admissible limit)
    (same : List.Forall₂ alike (Lexeme.all source) row) :
    ∃ other : RootTree, other.lexemes = row ∧ other.Admissible limit ∧
      other.denote payload target = tree.denote payload source := by
  rw [← derived] at same
  cases tree with
  | block pragma lone =>
      obtain ⟨pragmaRow, blockRow, rfl, pragmaSame, blockSame⟩ := exists_of_forall₂_append same
      obtain ⟨marked, rfl, markedLists, sameBundle⟩ :=
        exists_carried_pragma carries admissible pragmaSame
      obtain ⟨block, rfl, samePayload⟩ :=
        lone.exists_carried carries (suffix_of_eq_append derived) blockSame
      refine ⟨.block marked block, rfl, markedLists, ?_⟩
      rw [denote, denote, samePayload, sameBundle]
  | object pragma outermost =>
      obtain ⟨lists, outermostAdmissible⟩ := admissible
      obtain ⟨pragmaRow, objectRow, rfl, pragmaSame, objectSame⟩ := exists_of_forall₂_append same
      obtain ⟨marked, rfl, markedLists, sameBundle⟩ :=
        exists_carried_pragma carries lists pragmaSame
      obtain ⟨object, rfl, objectAdmissible, -, sameObject⟩ :=
        outermost.exists_carried carries limit [] objectRow outermostAdmissible
          (suffix_of_eq_append derived) objectSame
      exact ⟨.object marked object, rfl, ⟨markedLists, objectAdmissible⟩,
        sameObject pragma marked none sameBundle⟩

end

end YulTree.Grammar

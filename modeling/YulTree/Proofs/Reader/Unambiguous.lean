import YulTree.Proofs.Reader.Derivation

/-!
# One derivation for each text

No row of lexemes has two derivations (`RootTree.eq_of_lexemes_eq`).  Whatever stands behind a part
of a derivation, the part ends where its first lexemes say that it does.
-/

namespace YulTree.Grammar

theorem Terminal.eq_of_lexeme_eq {kind : TokenKind} {terminal other : Terminal kind}
    (same : terminal.lexeme = other.lexeme) : terminal = other := by
  cases terminal
  cases other
  cases same
  rfl

/-- Terminals of two kinds are two lexemes. -/
theorem Terminal.lexeme_ne {kind otherKind : TokenKind} (different : kind ≠ otherKind)
    (terminal : Terminal kind) (other : Terminal otherKind) : terminal.lexeme ≠ other.lexeme := by
  intro same
  apply different
  rw [← terminal.isKind, ← other.isKind, same]

theorem ValueTree.eq_of_lexeme_eq {value other : ValueTree} (same : value.lexeme = other.lexeme) :
    value = other := by
  cases value with
  | hex literal =>
      cases other with
      | hex otherLiteral => exact congrArg _ (Terminal.eq_of_lexeme_eq same)
      | string otherLiteral => exact absurd same (Terminal.lexeme_ne (by decide) _ _)
  | string literal =>
      cases other with
      | hex otherLiteral => exact absurd same (Terminal.lexeme_ne (by decide) _ _)
      | string otherLiteral => exact congrArg _ (Terminal.eq_of_lexeme_eq same)

theorem DataTree.eq_of_append {entry other : DataTree} {rest more : List Lexeme}
    (same : entry.lexemes ++ rest = other.lexemes ++ more) : entry = other ∧ rest = more := by
  obtain ⟨keyword, name, value⟩ := entry
  obtain ⟨otherKeyword, otherName, otherValue⟩ := other
  simp only [DataTree.lexemes, List.cons_append, List.nil_append, List.cons.injEq] at same
  obtain ⟨sameKeyword, sameName, sameValue, sameRest⟩ := same
  cases Terminal.eq_of_lexeme_eq sameKeyword
  cases Terminal.eq_of_lexeme_eq sameName
  cases ValueTree.eq_of_lexeme_eq sameValue
  exact ⟨rfl, sameRest⟩

/-- No balanced tokens go on behind the brace that closes what is around others. -/
theorem not_balanced_append {inner rest : List Lexeme} {closing : Lexeme}
    (balanced : Balanced (inner.map Lexeme.kind)) (isClosing : closing.kind = .closeBrace) :
    ¬ Balanced ((inner ++ closing :: rest).map Lexeme.kind) := by
  intro longer
  have counted := balanced_iff.mp longer
  rw [List.map_append, Balanced.depthAfter_append, balanced_iff.mp balanced, Option.bind_some,
    List.map_cons, isClosing] at counted
  cases counted

theorem eq_of_balanced {inner others rest more : List Lexeme} {closing ending : Lexeme}
    (balanced : Balanced (inner.map Lexeme.kind)) (isClosing : closing.kind = .closeBrace)
    (otherBalanced : Balanced (others.map Lexeme.kind)) (isEnding : ending.kind = .closeBrace)
    (same : inner ++ closing :: rest = others ++ ending :: more) :
    inner = others ∧ closing = ending ∧ rest = more := by
  rcases List.append_eq_append_iff.mp same with ⟨between, longer, tail⟩ | ⟨between, longer, tail⟩
  · cases between with
    | nil =>
        obtain ⟨sameClosing, sameRest⟩ := List.cons.inj tail
        rw [List.append_nil] at longer
        exact ⟨longer.symm, sameClosing, sameRest⟩
    | cons first between =>
        obtain ⟨rfl, -⟩ := List.cons.inj tail
        rw [longer] at otherBalanced
        exact absurd otherBalanced (not_balanced_append balanced isClosing)
  · cases between with
    | nil =>
        obtain ⟨sameClosing, sameRest⟩ := List.cons.inj tail
        rw [List.append_nil] at longer
        exact ⟨longer, sameClosing.symm, sameRest.symm⟩
    | cons first between =>
        obtain ⟨rfl, -⟩ := List.cons.inj tail
        rw [longer] at balanced
        exact absurd balanced (not_balanced_append otherBalanced isEnding)

theorem BlockTree.eq_of_append {block other : BlockTree} {rest more : List Lexeme}
    (same : block.lexemes ++ rest = other.lexemes ++ more) : block = other ∧ rest = more := by
  obtain ⟨opening, inner, closing, balanced⟩ := block
  obtain ⟨otherOpening, otherInner, otherClosing, otherBalanced⟩ := other
  simp only [BlockTree.lexemes, List.cons_append, List.append_assoc, List.nil_append,
    List.cons.injEq] at same
  obtain ⟨sameOpening, same⟩ := same
  obtain ⟨rfl, sameClosing, sameRest⟩ :=
    eq_of_balanced balanced closing.isKind otherBalanced otherClosing.isKind same
  cases Terminal.eq_of_lexeme_eq sameOpening
  cases Terminal.eq_of_lexeme_eq sameClosing
  exact ⟨rfl, sameRest⟩

theorem BlockTree.head?_append (block : BlockTree) (rest : List Lexeme) :
    (block.lexemes ++ rest).head? = some block.opening.lexeme := rfl

/-- There is code in front of the items exactly if the keyword of code stands there. -/
theorem code_eq_of_append {code other : Option CodeTree} {items otherItems : List ItemTree}
    {closing otherClosing : Terminal .closeBrace} {rest more : List Lexeme}
    (same : codeLexemes code ++ (ItemTree.lexemesAll items ++ closing.lexeme :: rest) =
      codeLexemes other ++ (ItemTree.lexemesAll otherItems ++ otherClosing.lexeme :: more)) :
    code = other ∧
      ItemTree.lexemesAll items ++ closing.lexeme :: rest =
        ItemTree.lexemesAll otherItems ++ otherClosing.lexeme :: more := by
  obtain ⟨first, behind, row, noCode⟩ := ItemTree.lexemesAll_head items closing rest
  obtain ⟨otherFirst, otherBehind, otherRow, otherNoCode⟩ :=
    ItemTree.lexemesAll_head otherItems otherClosing more
  cases code with
  | none =>
      cases other with
      | none => exact ⟨rfl, same⟩
      | some otherCode =>
          rw [row] at same
          obtain ⟨isFirst, -⟩ := List.cons.inj same
          rw [isFirst] at noCode
          exact absurd otherCode.keyword.isKind noCode
  | some code =>
      cases other with
      | none =>
          rw [otherRow] at same
          obtain ⟨isFirst, -⟩ := List.cons.inj same
          rw [← isFirst] at otherNoCode
          exact absurd code.keyword.isKind otherNoCode
      | some otherCode =>
          obtain ⟨keyword, block⟩ := code
          obtain ⟨otherKeyword, otherBlock⟩ := otherCode
          obtain ⟨sameKeyword, same⟩ := List.cons.inj same
          obtain ⟨rfl, sameRest⟩ := BlockTree.eq_of_append same
          cases Terminal.eq_of_lexeme_eq sameKeyword
          exact ⟨rfl, sameRest⟩

/-- A pragma can be told from what stands behind it. -/
theorem pragma_eq_of_append {pragma other : Option (Terminal .pragma)} {row otherRow : List Lexeme}
    {kind otherKind : TokenKind} {first : Terminal kind} {otherFirst : Terminal otherKind}
    (begins : row.head? = some first.lexeme) (otherBegins : otherRow.head? = some otherFirst.lexeme)
    (unmarked : kind ≠ .pragma) (otherUnmarked : otherKind ≠ .pragma)
    (same : pragmaLexemes pragma ++ row = pragmaLexemes other ++ otherRow) :
    pragma = other ∧ row = otherRow := by
  cases pragma with
  | none =>
      cases other with
      | none => exact ⟨rfl, same⟩
      | some otherPragma =>
          have isPragma : row.head? = some otherPragma.lexeme := congrArg List.head? same
          rw [begins] at isPragma
          exact absurd (Option.some.inj isPragma) (Terminal.lexeme_ne unmarked first otherPragma)
  | some pragma =>
      cases other with
      | none =>
          have isPragma : otherRow.head? = some pragma.lexeme := congrArg List.head? same.symm
          rw [otherBegins] at isPragma
          exact absurd (Option.some.inj isPragma)
            (Terminal.lexeme_ne otherUnmarked otherFirst pragma)
      | some otherPragma =>
          obtain ⟨samePragma, sameRest⟩ := List.cons.inj same
          exact ⟨congrArg some (Terminal.eq_of_lexeme_eq samePragma), sameRest⟩

theorem ObjectTree.head?_append (tree : ObjectTree) (rest : List Lexeme) :
    (tree.lexemes ++ rest).head? = some tree.keyword.lexeme := by
  cases tree
  rfl

/-- The kind of the first lexeme of items and the closing brace behind them. -/
def ItemTree.firstKind : List ItemTree → TokenKind
  | [] => .closeBrace
  | .data _ :: _ => .dataKeyword
  | .object none _ :: _ => .objectKeyword
  | .object (some _) _ :: _ => .pragma

theorem ItemTree.kind_first (items : List ItemTree) (closing : Terminal .closeBrace)
    (rest : List Lexeme) :
    ((ItemTree.lexemesAll items ++ closing.lexeme :: rest).head?.map Lexeme.kind) =
      some (ItemTree.firstKind items) := by
  cases items with
  | nil => exact congrArg some closing.isKind
  | cons item items =>
      cases item with
      | data entry => exact congrArg some entry.keyword.isKind
      | object pragma nested =>
          cases pragma with
          | none =>
              cases nested with
              | mk keyword => exact congrArg some keyword.isKind
          | some pragma => exact congrArg some pragma.isKind

theorem ItemTree.firstKind_eq {items others : List ItemTree} {closing ending : Terminal .closeBrace}
    {rest more : List Lexeme}
    (same : ItemTree.lexemesAll items ++ closing.lexeme :: rest =
      ItemTree.lexemesAll others ++ ending.lexeme :: more) :
    ItemTree.firstKind items = ItemTree.firstKind others := by
  have first := ItemTree.kind_first items closing rest
  rw [same, ItemTree.kind_first others ending more] at first
  exact (Option.some.inj first).symm

mutual

theorem ObjectTree.eq_of_append : ∀ (tree other : ObjectTree) {rest more : List Lexeme},
    tree.lexemes ++ rest = other.lexemes ++ more → tree = other ∧ rest = more
  | { keyword, name, opening, code, items, closing },
    { keyword := otherKeyword, name := otherName, opening := otherOpening, code := otherCode,
      items := otherItems, closing := otherClosing }, rest, more, same => by
      simp only [ObjectTree.lexemes, List.cons_append, List.append_assoc, List.nil_append,
        List.cons.injEq] at same
      obtain ⟨sameKeyword, sameName, sameOpening, sameInner⟩ := same
      obtain ⟨sameCode, sameItems⟩ := code_eq_of_append sameInner
      obtain ⟨sameTrees, sameClosing, sameRest⟩ :=
        ItemTree.eq_of_append items otherItems sameItems
      cases Terminal.eq_of_lexeme_eq sameKeyword
      cases Terminal.eq_of_lexeme_eq sameName
      cases Terminal.eq_of_lexeme_eq sameOpening
      cases Terminal.eq_of_lexeme_eq sameClosing
      subst sameCode sameTrees
      exact ⟨rfl, sameRest⟩

/-- Items end where a brace is closed that is around them. -/
theorem ItemTree.eq_of_append : ∀ (items others : List ItemTree)
    {closing ending : Terminal .closeBrace} {rest more : List Lexeme},
    ItemTree.lexemesAll items ++ closing.lexeme :: rest =
      ItemTree.lexemesAll others ++ ending.lexeme :: more →
    items = others ∧ closing.lexeme = ending.lexeme ∧ rest = more
  | [], [], closing, ending, rest, more, same => by
      obtain ⟨sameClosing, sameRest⟩ := List.cons.inj same
      exact ⟨rfl, sameClosing, sameRest⟩
  | .data entry :: items, .data other :: others, closing, ending, rest, more, same => by
      rw [ItemTree.lexemesAll, ItemTree.lexemesAll, List.append_assoc, List.append_assoc] at same
      obtain ⟨sameEntry, sameItems⟩ := DataTree.eq_of_append same
      obtain ⟨sameTrees, sameEnd⟩ := ItemTree.eq_of_append items others sameItems
      rw [sameEntry, sameTrees]
      exact ⟨rfl, sameEnd⟩
  | .object pragma nested :: items, .object otherPragma other :: others, closing, ending, rest,
    more, same => by
      simp only [ItemTree.lexemesAll, List.append_assoc] at same
      obtain ⟨samePragma, sameObjects⟩ := pragma_eq_of_append (nested.head?_append _)
        (other.head?_append _) (by decide) (by decide) same
      obtain ⟨sameNested, sameItems⟩ := ObjectTree.eq_of_append nested other sameObjects
      obtain ⟨sameTrees, sameEnd⟩ := ItemTree.eq_of_append items others sameItems
      rw [samePragma, sameNested, sameTrees]
      exact ⟨rfl, sameEnd⟩
  | [], .data other :: others, closing, ending, rest, more, same => by
      cases ItemTree.firstKind_eq same
  | .data entry :: items, [], closing, ending, rest, more, same => by
      cases ItemTree.firstKind_eq same
  | [], .object pragma other :: others, closing, ending, rest, more, same => by
      cases pragma <;> cases ItemTree.firstKind_eq same
  | .object pragma nested :: items, [], closing, ending, rest, more, same => by
      cases pragma <;> cases ItemTree.firstKind_eq same
  | .data entry :: items, .object pragma other :: others, closing, ending, rest, more, same => by
      cases pragma <;> cases ItemTree.firstKind_eq same
  | .object pragma nested :: items, .data other :: others, closing, ending, rest, more, same => by
      cases pragma <;> cases ItemTree.firstKind_eq same

end

/-- A text has one derivation at most. -/
theorem RootTree.eq_of_lexemes_eq {tree other : RootTree} (same : tree.lexemes = other.lexemes) :
    tree = other := by
  have sameRow : tree.lexemes ++ [] = other.lexemes ++ [] := congrArg (· ++ []) same
  cases tree with
  | block pragma lone =>
      cases other with
      | block otherPragma otherLone =>
          simp only [RootTree.lexemes, List.append_assoc] at sameRow
          obtain ⟨samePragma, sameBlock⟩ := pragma_eq_of_append (lone.head?_append [])
            (otherLone.head?_append []) (by decide) (by decide) sameRow
          rw [samePragma, (BlockTree.eq_of_append sameBlock).1]
      | object otherPragma otherOutermost =>
          simp only [RootTree.lexemes, List.append_assoc] at sameRow
          obtain ⟨-, sameFirst⟩ := pragma_eq_of_append (lone.head?_append [])
            (otherOutermost.head?_append []) (by decide) (by decide) sameRow
          have isFirst := lone.head?_append []
          rw [sameFirst, otherOutermost.head?_append] at isFirst
          exact absurd (Option.some.inj isFirst) (Terminal.lexeme_ne (by decide) _ _)
  | object pragma outermost =>
      cases other with
      | block otherPragma otherLone =>
          simp only [RootTree.lexemes, List.append_assoc] at sameRow
          obtain ⟨-, sameFirst⟩ := pragma_eq_of_append (outermost.head?_append [])
            (otherLone.head?_append []) (by decide) (by decide) sameRow
          have isFirst := outermost.head?_append []
          rw [sameFirst, otherLone.head?_append] at isFirst
          exact absurd (Option.some.inj isFirst) (Terminal.lexeme_ne (by decide) _ _)
      | object otherPragma otherOutermost =>
          simp only [RootTree.lexemes, List.append_assoc] at sameRow
          obtain ⟨samePragma, sameObject⟩ := pragma_eq_of_append (outermost.head?_append [])
            (otherOutermost.head?_append []) (by decide) (by decide) sameRow
          rw [samePragma, (ObjectTree.eq_of_append _ _ sameObject).1]

end YulTree.Grammar

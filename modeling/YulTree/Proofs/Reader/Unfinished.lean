import YulTree.Proofs.Reader.Stage

/-!
# Derivations that break off

What stands in front of a stage is the front of a derivation (`Unfinished.exists_of_run`).  So the
stages tell which rows of kinds the grammar derives (`derivable_iff`), and which it can still
complete to such rows (`viable_iff`).
-/

namespace YulTree.Grammar

structure Head where
  pragma : Option (Terminal .pragma)
  keyword : Terminal .objectKeyword
  name : Terminal .stringLiteral
  opening : Terminal .openBrace

/-- An object that breaks off behind its code or an item. -/
structure OpenObject where
  head : Head
  code : Option CodeTree
  items : List ItemTree

/-- A block that breaks off, with some braces left open inside it. -/
structure BlockFront where
  opening : Terminal .openBrace
  inner : List Lexeme
  depth : Nat
  counted : Balanced.depthAfter 0 (inner.map Lexeme.kind) = some depth

/-- A derivation that breaks off.  The objects that are still open are listed innermost first. -/
inductive Unfinished where
  | start (pragma : Option (Terminal .pragma))
  | loneBlock (pragma : Option (Terminal .pragma)) (block : BlockFront)
  | afterKeyword (pragma : Option (Terminal .pragma)) (keyword : Terminal .objectKeyword)
      (outer : List OpenObject)
  | afterName (pragma : Option (Terminal .pragma)) (keyword : Terminal .objectKeyword)
      (name : Terminal .stringLiteral) (outer : List OpenObject)
  | afterHead (head : Head) (outer : List OpenObject)
  | afterCodeKeyword (head : Head) (keyword : Terminal .codeKeyword) (outer : List OpenObject)
  | inCode (head : Head) (keyword : Terminal .codeKeyword) (block : BlockFront)
      (outer : List OpenObject)
  | betweenItems (innermost : OpenObject) (outer : List OpenObject)
  | afterPragma (pragma : Terminal .pragma) (innermost : OpenObject) (outer : List OpenObject)
  | afterDataKeyword (keyword : Terminal .dataKeyword) (innermost : OpenObject)
      (outer : List OpenObject)
  | afterDataName (keyword : Terminal .dataKeyword) (name : Terminal .stringLiteral)
      (innermost : OpenObject) (outer : List OpenObject)
  | whole (tree : RootTree)

def Head.lexemes (head : Head) : List Lexeme :=
  pragmaLexemes head.pragma ++ [head.keyword.lexeme, head.name.lexeme, head.opening.lexeme]

def Head.braceSpan (head : Head) : Span := head.opening.lexeme.token.span

def OpenObject.lexemes (object : OpenObject) : List Lexeme :=
  object.head.lexemes ++ (codeLexemes object.code ++ ItemTree.lexemesAll object.items)

def BlockFront.lexemes (block : BlockFront) : List Lexeme :=
  block.opening.lexeme :: block.inner

def BlockFront.braceSpan (block : BlockFront) : Span := block.opening.lexeme.token.span

def openLexemes : List OpenObject → List Lexeme
  | [] => []
  | innermost :: outer => openLexemes outer ++ innermost.lexemes

def openBraces (objects : List OpenObject) : List Span :=
  objects.map fun object => object.head.braceSpan

namespace Unfinished

def lexemes : Unfinished → List Lexeme
  | .start pragma => pragmaLexemes pragma
  | .loneBlock pragma block => pragmaLexemes pragma ++ block.lexemes
  | .afterKeyword pragma keyword outer =>
      openLexemes outer ++ (pragmaLexemes pragma ++ [keyword.lexeme])
  | .afterName pragma keyword name outer =>
      openLexemes outer ++ (pragmaLexemes pragma ++ [keyword.lexeme, name.lexeme])
  | .afterHead head outer => openLexemes outer ++ head.lexemes
  | .afterCodeKeyword head keyword outer =>
      openLexemes outer ++ (head.lexemes ++ [keyword.lexeme])
  | .inCode head keyword block outer =>
      openLexemes outer ++ (head.lexemes ++ keyword.lexeme :: block.lexemes)
  | .betweenItems innermost outer => openLexemes (innermost :: outer)
  | .afterPragma pragma innermost outer => openLexemes (innermost :: outer) ++ [pragma.lexeme]
  | .afterDataKeyword keyword innermost outer =>
      openLexemes (innermost :: outer) ++ [keyword.lexeme]
  | .afterDataName keyword name innermost outer =>
      openLexemes (innermost :: outer) ++ [keyword.lexeme, name.lexeme]
  | .whole tree => tree.lexemes

def stage : Unfinished → Stage
  | .start pragma => .start pragma.isSome
  | .loneBlock _ block => .loneBlock block.depth
  | .afterKeyword _ _ outer => .keyword outer.length
  | .afterName _ _ _ outer => .name outer.length
  | .afterHead _ outer => .opened outer.length
  | .afterCodeKeyword _ _ outer => .codeKeyword outer.length
  | .inCode _ _ block outer => .code block.depth outer.length
  | .betweenItems _ outer => .items outer.length
  | .afterPragma _ _ outer => .pragma outer.length
  | .afterDataKeyword _ _ outer => .dataKeyword outer.length
  | .afterDataName _ _ _ outer => .dataName outer.length
  | .whole _ => .finished

/-- The places of the braces that are still open, innermost first.  Of the braces of a block only
the one that opens it counts. -/
def braces : Unfinished → List Span
  | .start _ | .whole _ => []
  | .loneBlock _ block => [block.braceSpan]
  | .afterKeyword _ _ outer | .afterName _ _ _ outer => openBraces outer
  | .afterHead head outer | .afterCodeKeyword head _ outer => head.braceSpan :: openBraces outer
  | .inCode head _ block outer => block.braceSpan :: head.braceSpan :: openBraces outer
  | .betweenItems innermost outer | .afterPragma _ innermost outer
  | .afterDataKeyword _ innermost outer | .afterDataName _ _ innermost outer =>
      openBraces (innermost :: outer)

end Unfinished

/-- The braces that are open after one more token at a given place. -/
def Stage.bracesAfter (stage : Stage) (kind : TokenKind) (place : Span) (braces : List Span) :
    List Span :=
  match stage, kind with
  | .start _, .openBrace | .name _, .openBrace | .codeKeyword _, .openBrace => place :: braces
  | .opened _, .closeBrace | .items _, .closeBrace => braces.tail
  | .loneBlock depth, kind | .code depth _, kind =>
      (Balanced.depthStep depth kind).elim braces.tail fun _ => braces
  | _, _ => braces

/-- The stages inside a block and the one behind it, where the block's own brace is the innermost
that is open. -/
structure Stage.Surrounds (inside : Nat → Stage) (behind : Stage) : Prop where
  next : Stage.Encloses inside behind
  bracesAfter : ∀ depth kind place braces, (inside depth).bracesAfter kind place braces =
    (Balanced.depthStep depth kind).elim braces.tail fun _ => braces
  notKeyword : ∀ outer, behind ≠ .keyword outer

theorem Stage.surrounds_loneBlock : Stage.Surrounds .loneBlock .finished :=
  ⟨encloses_loneBlock, fun _ _ _ _ => rfl, fun _ => Stage.noConfusion⟩

theorem Stage.surrounds_code (outer : Nat) : Stage.Surrounds (.code · outer) (.items outer) :=
  ⟨encloses_code outer, fun _ _ _ _ => rfl, fun _ => Stage.noConfusion⟩

/-- Behind which lexemes a derivation breaks off, at which stage, and inside which braces. -/
structure Unfinished.IsAt (unfinished : Unfinished) (row : List Lexeme) (stage : Stage)
    (braces : List Span) : Prop where
  lexemes : unfinished.lexemes = row
  stage : unfinished.stage = stage
  braces : unfinished.braces = braces

/-- A derivation that breaks off one lexeme later, and where the stages say. -/
structure Unfinished.Extends (longer unfinished : Unfinished) (lexeme : Lexeme) (after : Stage) :
    Prop where
  lexemes : longer.lexemes = unfinished.lexemes ++ [lexeme]
  stage : longer.stage = after
  braces : longer.braces =
    unfinished.stage.bracesAfter lexeme.kind lexeme.token.span unfinished.braces

theorem Unfinished.Extends.of_kind {longer unfinished : Unfinished} {lexeme : Lexeme}
    {after : Stage} {kind : TokenKind} (isKind : lexeme.kind = kind)
    (row : longer.lexemes = unfinished.lexemes ++ [lexeme]) (here : longer.stage = after)
    (places : longer.braces =
      unfinished.stage.bracesAfter kind lexeme.token.span unfinished.braces) :
    longer.Extends unfinished lexeme after := by
  subst isKind
  exact ⟨row, here, places⟩

theorem ItemTree.lexemesAll_append (first second : List ItemTree) :
    ItemTree.lexemesAll (first ++ second) =
      ItemTree.lexemesAll first ++ ItemTree.lexemesAll second := by
  induction first with
  | nil => rfl
  | cons item rest inductionHypothesis =>
      cases item with
      | data entry =>
          rw [List.cons_append, ItemTree.lexemesAll, inductionHypothesis, ItemTree.lexemesAll,
            List.append_assoc]
      | object pragma nested =>
          rw [List.cons_append, ItemTree.lexemesAll, inductionHypothesis, ItemTree.lexemesAll,
            List.append_assoc, List.append_assoc]

def OpenObject.push (object : OpenObject) (item : ItemTree) : OpenObject :=
  { object with items := object.items ++ [item] }

theorem OpenObject.lexemes_push (object : OpenObject) (item : ItemTree) :
    (object.push item).lexemes = object.lexemes ++ ItemTree.lexemesAll [item] := by
  simp [OpenObject.lexemes, OpenObject.push, ItemTree.lexemesAll_append]

def OpenObject.close (object : OpenObject) (closing : Terminal .closeBrace) : ObjectTree :=
  ⟨object.head.keyword, object.head.name, object.head.opening, object.code, object.items, closing⟩

theorem OpenObject.lexemes_close (object : OpenObject) (closing : Terminal .closeBrace) :
    pragmaLexemes object.head.pragma ++ (object.close closing).lexemes =
      object.lexemes ++ [closing.lexeme] := by
  simp [OpenObject.lexemes, OpenObject.close, ObjectTree.lexemes, Head.lexemes]

/-- A block that breaks off ends, or breaks off one lexeme later. -/
theorem BlockFront.cases_after (block : BlockFront) (lexeme : Lexeme) :
    (∃ longer : BlockFront, Balanced.depthStep block.depth lexeme.kind = some longer.depth ∧
      longer.opening = block.opening ∧ longer.lexemes = block.lexemes ++ [lexeme]) ∨
    (∃ tree : BlockTree, Balanced.depthStep block.depth lexeme.kind = none ∧
      tree.lexemes = block.lexemes ++ [lexeme]) := by
  cases stepped : Balanced.depthStep block.depth lexeme.kind with
  | some depth =>
      have counted :
          Balanced.depthAfter 0 ((block.inner ++ [lexeme]).map Lexeme.kind) = some depth := by
        rw [List.map_append, Balanced.depthAfter_append, block.counted, Option.bind_some,
          List.map_singleton, Balanced.depthAfter_cons, stepped]
        rfl
      exact .inl ⟨⟨block.opening, block.inner ++ [lexeme], depth, counted⟩, rfl, rfl, rfl⟩
  | none =>
      obtain ⟨isClosing, zero⟩ := Balanced.depthStep_eq_none_iff.mp stepped
      have balanced := block.counted
      rw [zero] at balanced
      exact .inr
        ⟨⟨block.opening, block.inner, ⟨lexeme, isClosing⟩, balanced_iff.mpr balanced⟩, rfl, rfl⟩

section

variable {lexeme : Lexeme} {after : Stage}

theorem exists_extends_start {pragma : Option (Terminal .pragma)}
    (stepped : (Stage.start pragma.isSome).next lexeme.kind = some after) :
    ∃ longer : Unfinished, longer.Extends (.start pragma) lexeme after := by
  cases isKind : lexeme.kind with
  | pragma =>
      rw [isKind] at stepped
      cases pragma with
      | none =>
          cases stepped
          exact ⟨.start (some ⟨lexeme, isKind⟩), .of_kind isKind rfl rfl rfl⟩
      | some pragma => cases stepped
  | openBrace =>
      rw [isKind] at stepped
      have entered : after = .loneBlock 0 := by
        cases pragma <;> exact (Option.some.inj stepped).symm
      exact ⟨.loneBlock pragma ⟨⟨lexeme, isKind⟩, [], 0, rfl⟩,
        .of_kind isKind rfl entered.symm rfl⟩
  | objectKeyword =>
      rw [isKind] at stepped
      have entered : after = .keyword 0 := by
        cases pragma <;> exact (Option.some.inj stepped).symm
      exact ⟨.afterKeyword pragma ⟨lexeme, isKind⟩ [], .of_kind isKind rfl entered.symm rfl⟩
  | _ =>
      rw [isKind] at stepped
      cases pragma <;> cases stepped

/-- Inside a block a derivation goes on by every lexeme, wherever the block stands. -/
theorem exists_extends_block {inside : Nat → Stage} {behind : Stage}
    (surrounds : Stage.Surrounds inside behind) (before : List Lexeme) (around : List Span)
    (within : BlockFront → Unfinished) (closed : BlockTree → Unfinished)
    (breaksOff : ∀ block : BlockFront, (within block).IsAt (before ++ block.lexemes)
      (inside block.depth) (block.braceSpan :: around))
    (ends : ∀ tree : BlockTree, (closed tree).IsAt (before ++ tree.lexemes) behind around)
    {block : BlockFront} (stepped : (within block).stage.next lexeme.kind = some after) :
    ∃ longer : Unfinished, longer.Extends (within block) lexeme after := by
  have here := breaksOff block
  rw [here.stage, surrounds.next, Stage.inBlock] at stepped
  rcases block.cases_after lexeme with ⟨longer, counted, sameOpening, row⟩ | ⟨tree, counted, row⟩
  · have there := breaksOff longer
    rw [counted] at stepped
    refine ⟨within longer, ?_, ?_, ?_⟩
    · rw [there.lexemes, here.lexemes, row, List.append_assoc]
    · rw [there.stage]
      exact Option.some.inj stepped
    · rw [there.braces, here.braces, here.stage, surrounds.bracesAfter, counted,
        Option.elim_some, BlockFront.braceSpan, BlockFront.braceSpan, sameOpening]
  · have there := ends tree
    rw [counted] at stepped
    refine ⟨closed tree, ?_, ?_, ?_⟩
    · rw [there.lexemes, here.lexemes, row, List.append_assoc]
    · rw [there.stage]
      exact Option.some.inj stepped
    · rw [there.braces, here.braces, here.stage, surrounds.bracesAfter, counted,
        Option.elim_none, List.tail_cons]

theorem exists_extends_loneBlock {pragma : Option (Terminal .pragma)} {block : BlockFront}
    (stepped : (Stage.loneBlock block.depth).next lexeme.kind = some after) :
    ∃ longer : Unfinished, longer.Extends (.loneBlock pragma block) lexeme after := by
  refine exists_extends_block Stage.surrounds_loneBlock (pragmaLexemes pragma) []
    (.loneBlock pragma) (fun tree => .whole (.block pragma tree)) ?_ ?_ stepped
  · intro block
    exact ⟨rfl, rfl, rfl⟩
  · intro tree
    exact ⟨rfl, rfl, rfl⟩

theorem exists_extends_inCode {head : Head} {keyword : Terminal .codeKeyword}
    {block : BlockFront} {outer : List OpenObject}
    (stepped : (Stage.code block.depth outer.length).next lexeme.kind = some after) :
    ∃ longer : Unfinished, longer.Extends (.inCode head keyword block outer) lexeme after := by
  refine exists_extends_block (Stage.surrounds_code outer.length)
    (openLexemes outer ++ (head.lexemes ++ [keyword.lexeme]))
    (head.braceSpan :: openBraces outer) (.inCode head keyword · outer)
    (fun tree => .betweenItems ⟨head, some ⟨keyword, tree⟩, []⟩ outer) ?_ ?_ stepped
  · intro block
    exact ⟨by simp [Unfinished.lexemes], rfl, rfl⟩
  · intro tree
    refine ⟨?_, rfl, rfl⟩
    simp [Unfinished.lexemes, openLexemes, OpenObject.lexemes, codeLexemes,
      ItemTree.lexemesAll]

/-- Between items an object goes on with an item or with its closing brace. -/
theorem exists_extends_betweenItems (innermost : OpenObject) {outer : List OpenObject}
    (stepped : (Stage.items outer.length).next lexeme.kind = some after) :
    ∃ longer : Unfinished, longer.Extends (.betweenItems innermost outer) lexeme after := by
  cases isKind : lexeme.kind with
  | closeBrace =>
      rw [isKind] at stepped
      cases stepped
      have closed := innermost.lexemes_close ⟨lexeme, isKind⟩
      cases outer with
      | nil =>
          refine ⟨.whole (.object innermost.head.pragma (innermost.close ⟨lexeme, isKind⟩)),
            .of_kind isKind ?_ rfl rfl⟩
          simp only [Unfinished.lexemes, RootTree.lexemes, closed, openLexemes, List.nil_append]
      | cons parent outer =>
          refine ⟨.betweenItems
            (parent.push (.object innermost.head.pragma (innermost.close ⟨lexeme, isKind⟩)))
            outer, .of_kind isKind ?_ rfl rfl⟩
          simp only [Unfinished.lexemes, openLexemes, OpenObject.lexemes_push,
            ItemTree.lexemesAll, List.append_nil, closed, List.append_assoc]
  | dataKeyword =>
      rw [isKind] at stepped
      cases stepped
      exact ⟨.afterDataKeyword ⟨lexeme, isKind⟩ innermost outer, .of_kind isKind rfl rfl rfl⟩
  | objectKeyword =>
      rw [isKind] at stepped
      cases stepped
      exact ⟨.afterKeyword none ⟨lexeme, isKind⟩ (innermost :: outer), .of_kind isKind rfl rfl rfl⟩
  | pragma =>
      rw [isKind] at stepped
      cases stepped
      exact ⟨.afterPragma ⟨lexeme, isKind⟩ innermost outer, .of_kind isKind rfl rfl rfl⟩
  | _ =>
      rw [isKind] at stepped
      cases stepped

theorem exists_extends_afterHead {head : Head} {outer : List OpenObject}
    (stepped : (Stage.opened outer.length).next lexeme.kind = some after) :
    ∃ longer : Unfinished, longer.Extends (.afterHead head outer) lexeme after := by
  by_cases isKind : lexeme.kind = .codeKeyword
  · rw [isKind] at stepped
    cases stepped
    refine ⟨.afterCodeKeyword head ⟨lexeme, isKind⟩ outer, .of_kind isKind ?_ rfl rfl⟩
    simp only [Unfinished.lexemes, List.append_assoc]
  · rw [Stage.next_opened isKind] at stepped
    obtain ⟨longer, row, sameStage, sameBraces⟩ :=
      exists_extends_betweenItems ⟨head, none, []⟩ stepped
    refine ⟨longer, ?_, sameStage, ?_⟩
    · rw [row]
      simp [Unfinished.lexemes, openLexemes, OpenObject.lexemes, codeLexemes,
        ItemTree.lexemesAll]
    · rw [sameBraces]
      cases lexeme.kind <;> rfl

theorem exists_extends_afterDataName {keyword : Terminal .dataKeyword}
    {name : Terminal .stringLiteral} {innermost : OpenObject} {outer : List OpenObject}
    (stepped : (Stage.dataName outer.length).next lexeme.kind = some after) :
    ∃ longer : Unfinished,
      longer.Extends (.afterDataName keyword name innermost outer) lexeme after := by
  have valued : ∃ value : ValueTree, value.lexeme = lexeme ∧ after = .items outer.length ∧
      (Stage.dataName outer.length).bracesAfter lexeme.kind = fun _ braces => braces := by
    cases isKind : lexeme.kind with
    | hexLiteral =>
        rw [isKind] at stepped
        cases stepped
        exact ⟨.hex ⟨lexeme, isKind⟩, rfl, rfl, rfl⟩
    | stringLiteral =>
        rw [isKind] at stepped
        cases stepped
        exact ⟨.string ⟨lexeme, isKind⟩, rfl, rfl, rfl⟩
    | _ =>
        rw [isKind] at stepped
        cases stepped
  obtain ⟨value, same, reached, sameBraces⟩ := valued
  refine ⟨.betweenItems (innermost.push (.data ⟨keyword, name, value⟩)) outer, ?_,
    reached.symm, ?_⟩
  · simp [Unfinished.lexemes, openLexemes, OpenObject.lexemes_push, ItemTree.lexemesAll,
      DataTree.lexemes, same]
  · rw [Unfinished.stage, sameBraces]
    rfl

/-- A derivation that breaks off can be read on by every lexeme that its stage allows. -/
theorem Unfinished.exists_extends (unfinished : Unfinished)
    (stepped : unfinished.stage.next lexeme.kind = some after) :
    ∃ longer : Unfinished, longer.Extends unfinished lexeme after := by
  cases unfinished with
  | start pragma => exact exists_extends_start stepped
  | loneBlock pragma block => exact exists_extends_loneBlock stepped
  | afterKeyword pragma keyword outer =>
      cases isKind : lexeme.kind with
      | stringLiteral =>
          rw [isKind] at stepped
          cases stepped
          refine ⟨.afterName pragma keyword ⟨lexeme, isKind⟩ outer, .of_kind isKind ?_ rfl rfl⟩
          simp [lexemes]
      | _ =>
          rw [isKind] at stepped
          cases stepped
  | afterName pragma keyword name outer =>
      cases isKind : lexeme.kind with
      | openBrace =>
          rw [isKind] at stepped
          cases stepped
          refine ⟨.afterHead ⟨pragma, keyword, name, ⟨lexeme, isKind⟩⟩ outer,
            .of_kind isKind ?_ rfl rfl⟩
          simp [lexemes, Head.lexemes]
      | _ =>
          rw [isKind] at stepped
          cases stepped
  | afterHead head outer => exact exists_extends_afterHead stepped
  | afterCodeKeyword head keyword outer =>
      cases isKind : lexeme.kind with
      | openBrace =>
          rw [isKind] at stepped
          cases stepped
          refine ⟨.inCode head keyword ⟨⟨lexeme, isKind⟩, [], 0, rfl⟩ outer,
            .of_kind isKind ?_ rfl rfl⟩
          simp [lexemes, BlockFront.lexemes]
      | _ =>
          rw [isKind] at stepped
          cases stepped
  | inCode head keyword block outer => exact exists_extends_inCode stepped
  | betweenItems innermost outer => exact exists_extends_betweenItems innermost stepped
  | afterPragma pragma innermost outer =>
      cases isKind : lexeme.kind with
      | objectKeyword =>
          rw [isKind] at stepped
          cases stepped
          refine ⟨.afterKeyword (some pragma) ⟨lexeme, isKind⟩ (innermost :: outer),
            .of_kind isKind ?_ rfl rfl⟩
          simp [lexemes, pragmaLexemes]
      | _ =>
          rw [isKind] at stepped
          cases stepped
  | afterDataKeyword keyword innermost outer =>
      cases isKind : lexeme.kind with
      | stringLiteral =>
          rw [isKind] at stepped
          cases stepped
          refine ⟨.afterDataName keyword ⟨lexeme, isKind⟩ innermost outer,
            .of_kind isKind ?_ rfl rfl⟩
          simp [lexemes]
      | _ =>
          rw [isKind] at stepped
          cases stepped
  | afterDataName keyword name innermost outer => exact exists_extends_afterDataName stepped
  | whole tree => cases stepped

end

/-! ## Rows of kinds -/

/-- What leads to a stage is the front of a derivation. -/
theorem Unfinished.exists_of_run (lexemes : List Lexeme) {stage : Stage}
    (reached : (Stage.start false).run (lexemes.map Lexeme.kind) = some stage) :
    ∃ unfinished : Unfinished, unfinished.lexemes = lexemes ∧ unfinished.stage = stage := by
  have onward : ∀ (rest : List Lexeme) (front : Unfinished),
      front.stage.run (rest.map Lexeme.kind) = some stage →
      ∃ unfinished : Unfinished,
        unfinished.lexemes = front.lexemes ++ rest ∧ unfinished.stage = stage := by
    intro rest
    induction rest with
    | nil =>
        intro front here
        exact ⟨front, (List.append_nil _).symm, Option.some.inj here⟩
    | cons lexeme rest inductionHypothesis =>
        intro front further
        rw [List.map_cons, Stage.run_cons] at further
        obtain ⟨after, stepped, further⟩ := Option.bind_eq_some_iff.mp further
        obtain ⟨longer, row, sameStage, -⟩ := front.exists_extends stepped
        subst sameStage
        obtain ⟨unfinished, wholeRow, lastStage⟩ := inductionHypothesis longer further
        refine ⟨unfinished, ?_, lastStage⟩
        rw [wholeRow, row, List.append_assoc]
        rfl
  exact onward lexemes (.start none) reached

/-- The rows of kinds that the grammar derives. -/
def Derivable (kinds : List TokenKind) : Prop :=
  (∀ kind ∈ kinds, kind.isTrivia = false) ∧
    ∃ tree : RootTree, tree.lexemes.map Lexeme.kind = kinds

/-- The rows of kinds that some row begins with which the grammar derives. -/
def Viable (kinds : List TokenKind) : Prop := ∃ rest, Derivable (kinds ++ rest)

def bareLexeme (kind : TokenKind) : Lexeme := ⟨[], ⟨kind, [], 0⟩⟩

theorem map_kind_bareLexeme (kinds : List TokenKind) :
    (kinds.map bareLexeme).map Lexeme.kind = kinds := by
  rw [List.map_map]
  exact List.map_id kinds

theorem derivable_iff {kinds : List TokenKind} :
    Derivable kinds ↔
      (∀ kind ∈ kinds, kind.isTrivia = false) ∧
        (Stage.start false).run kinds = some .finished := by
  apply and_congr_right
  intro significant
  constructor
  · intro derived
    obtain ⟨tree, same⟩ := derived
    rw [← same]
    exact tree.run_eq
  · intro reached
    rw [← map_kind_bareLexeme kinds] at reached
    obtain ⟨unfinished, row, ended⟩ := Unfinished.exists_of_run _ reached
    cases unfinished with
    | whole tree =>
        refine ⟨tree, ?_⟩
        rw [← map_kind_bareLexeme kinds, ← row]
        rfl
    | _ => cases ended

/-- A row of kinds can be completed exactly if it leads to a stage. -/
theorem viable_iff {kinds : List TokenKind} :
    Viable kinds ↔
      (∀ kind ∈ kinds, kind.isTrivia = false) ∧ ((Stage.start false).run kinds).isSome = true := by
  constructor
  · intro viable
    obtain ⟨rest, derived⟩ := viable
    obtain ⟨significant, reached⟩ := derivable_iff.mp derived
    rw [Stage.run_append] at reached
    obtain ⟨stage, here, -⟩ := Option.bind_eq_some_iff.mp reached
    refine ⟨?_, Option.isSome_iff_exists.mpr ⟨stage, here⟩⟩
    intro kind member
    exact significant kind (List.mem_append_left rest member)
  · intro reached
    obtain ⟨significant, reached⟩ := reached
    obtain ⟨stage, here⟩ := Option.isSome_iff_exists.mp reached
    refine ⟨stage.completion, derivable_iff.mpr ⟨?_, ?_⟩⟩
    · intro kind member
      rcases List.mem_append.mp member with given | added
      · exact significant kind given
      · exact Stage.isTrivia_of_mem_completion added
    · rw [Stage.run_append, here, Option.bind_some, stage.run_completion]

end YulTree.Grammar

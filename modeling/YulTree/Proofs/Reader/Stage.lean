import YulTree.Proofs.Reader.Derivation

/-!
# Stages of a derivation

How far the kinds of tokens take a derivation from front to back, whatever the tokens contain.
The kinds of every derivation lead to its end (`RootTree.run_eq`), and from every stage some kinds
do (`Stage.run_completion`).
-/

namespace YulTree.Grammar

/-- What a derivation has come to.  The objects that are open around the innermost one are
counted, and so are the braces that are open inside a block. -/
inductive Stage where
  /-- Nothing, or a pragma. -/
  | start (marked : Bool)
  /-- The beginning of a block that is not inside an object. -/
  | loneBlock (depth : Nat)
  /-- An object's keyword. -/
  | keyword (outer : Nat)
  /-- An object's name. -/
  | name (outer : Nat)
  /-- An object's opening brace. -/
  | opened (outer : Nat)
  /-- The keyword of an object's code. -/
  | codeKeyword (outer : Nat)
  /-- The beginning of an object's code. -/
  | code (depth outer : Nat)
  /-- Some items of an object. -/
  | items (outer : Nat)
  /-- A pragma in front of a nested object. -/
  | pragma (outer : Nat)
  /-- The keyword of a byte string. -/
  | dataKeyword (outer : Nat)
  /-- The name of a byte string. -/
  | dataName (outer : Nat)
  /-- A whole derivation. -/
  | finished
  deriving DecidableEq, Repr

namespace Stage

def ended : Nat → Stage
  | 0 => .finished
  | outer + 1 => .items outer

/-- The kind of a token inside a block, or of the brace behind it. -/
def inBlock (inside : Nat → Stage) (behind : Stage) (depth : Nat) (kind : TokenKind) : Stage :=
  (Balanced.depthStep depth kind).elim behind inside

/-- The first kind of an item, or that of the brace behind all items. -/
def itemNext (outer : Nat) : TokenKind → Option Stage
  | .closeBrace => some (ended outer)
  | .dataKeyword => some (.dataKeyword outer)
  | .objectKeyword => some (.keyword (outer + 1))
  | .pragma => some (.pragma outer)
  | _ => none

/-- The stage after a token of one more kind, if such a token may come next. -/
def next : Stage → TokenKind → Option Stage
  | .start false, .pragma => some (.start true)
  | .start _, .openBrace => some (.loneBlock 0)
  | .start _, .objectKeyword => some (.keyword 0)
  | .loneBlock depth, kind => some (inBlock .loneBlock .finished depth kind)
  | .keyword outer, .stringLiteral => some (.name outer)
  | .name outer, .openBrace => some (.opened outer)
  | .opened outer, .codeKeyword => some (.codeKeyword outer)
  | .opened outer, kind => itemNext outer kind
  | .codeKeyword outer, .openBrace => some (.code 0 outer)
  | .code depth outer, kind => some (inBlock (.code · outer) (.items outer) depth kind)
  | .items outer, kind => itemNext outer kind
  | .pragma outer, .objectKeyword => some (.keyword (outer + 1))
  | .dataKeyword outer, .stringLiteral => some (.dataName outer)
  | .dataName outer, .hexLiteral => some (.items outer)
  | .dataName outer, .stringLiteral => some (.items outer)
  | _, _ => none

def run (stage : Stage) (kinds : List TokenKind) : Option Stage := kinds.foldlM next stage

theorem run_cons (stage : Stage) (kind : TokenKind) (rest : List TokenKind) :
    stage.run (kind :: rest) = (stage.next kind).bind (·.run rest) := rfl

theorem run_append (stage : Stage) (first second : List TokenKind) :
    stage.run (first ++ second) = (stage.run first).bind (·.run second) :=
  List.foldlM_append

theorem run_of_next {stage after : Stage} {kind : TokenKind}
    (stepped : stage.next kind = some after) (rest : List TokenKind) :
    stage.run (kind :: rest) = after.run rest := by
  rw [run_cons, stepped, Option.bind_some]

/-- The stages inside a block, and the stage behind it. -/
def Encloses (inside : Nat → Stage) (behind : Stage) : Prop :=
  ∀ depth kind, (inside depth).next kind = some (inBlock inside behind depth kind)

theorem encloses_loneBlock : Encloses .loneBlock .finished := by
  intro depth kind
  rfl

theorem encloses_code (outer : Nat) : Encloses (.code · outer) (.items outer) := by
  intro depth kind
  rfl

theorem Encloses.ne_keyword {inside : Nat → Stage} {behind : Stage}
    (encloses : Encloses inside behind) (depth outer : Nat) : inside depth ≠ .keyword outer := by
  intro same
  have allowed := encloses depth .pragma
  rw [same] at allowed
  cases allowed

/-- Behind the opening brace an object without code goes on like its items. -/
theorem next_opened {kind : TokenKind} (noCode : kind ≠ .codeKeyword) (outer : Nat) :
    (opened outer).next kind = (items outer).next kind := by
  cases kind with
  | codeKeyword => exact absurd rfl noCode
  | _ => rfl

theorem run_inside {inside : Nat → Stage} {behind : Stage} (encloses : Encloses inside behind)
    {kinds : List TokenKind} {depth last : Nat}
    (counted : Balanced.depthAfter depth kinds = some last) :
    (inside depth).run kinds = some (inside last) := by
  induction kinds generalizing depth with
  | nil =>
      cases counted
      rfl
  | cons kind rest inductionHypothesis =>
      rw [Balanced.depthAfter_cons] at counted
      obtain ⟨between, stepped, counted⟩ := Option.bind_eq_some_iff.mp counted
      have advanced : (inside depth).next kind = some (inside between) := by
        rw [encloses, inBlock, stepped, Option.elim_some]
      rw [run_of_next advanced, inductionHypothesis counted]

theorem run_opened {kind : TokenKind} (noCode : kind ≠ .codeKeyword) (outer : Nat)
    (rest : List TokenKind) :
    (opened outer).run (kind :: rest) = (items outer).run (kind :: rest) := by
  rw [run_cons, run_cons, next_opened noCode]

/-- The number of open objects, counting one of which only the keyword has come. -/
def levels : Stage → Nat
  | .start _ | .loneBlock _ | .finished => 0
  | .keyword outer | .name outer | .opened outer | .codeKeyword outer | .code _ outer
  | .items outer | .pragma outer | .dataKeyword outer | .dataName outer => outer + 1

theorem levels_inBlock {inside : Nat → Stage} {behind : Stage} {count : Nat}
    (levelsInside : ∀ depth, (inside depth).levels = count) (levelsBehind : behind.levels = count)
    (depth : Nat) (kind : TokenKind) : (inBlock inside behind depth kind).levels = count := by
  unfold inBlock
  cases Balanced.depthStep depth kind with
  | none => exact levelsBehind
  | some deeper => exact levelsInside deeper

theorem levels_ended_le (outer : Nat) : (ended outer).levels ≤ outer + 1 := by
  cases outer with
  | zero => exact Nat.zero_le _
  | succ outer => exact Nat.le_succ _

theorem levels_of_itemNext {outer : Nat} {kind : TokenKind} {after : Stage}
    (stepped : itemNext outer kind = some after) :
    after = .keyword (outer + 1) ∨ after.levels ≤ outer + 1 := by
  unfold itemNext at stepped
  split at stepped
  · cases stepped
    exact .inr (levels_ended_le outer)
  · cases stepped
    exact .inr (Nat.le_refl _)
  · cases stepped
    exact .inl rfl
  · cases stepped
    exact .inr (Nat.le_refl _)
  · cases stepped

/-- Objects begin inside those that are open, and nothing else makes more of them. -/
theorem levels_of_next {stage after : Stage} {kind : TokenKind}
    (stepped : stage.next kind = some after) :
    after = .keyword stage.levels ∨ after.levels ≤ stage.levels := by
  cases stage with
  | loneBlock depth =>
      cases stepped
      have kept : (inBlock .loneBlock .finished depth kind).levels = 0 := by
        apply levels_inBlock
        · intro deeper
          rfl
        · rfl
      exact .inr (Nat.le_of_eq kept)
  | code depth outer =>
      cases stepped
      have kept : (inBlock (.code · outer) (.items outer) depth kind).levels = outer + 1 := by
        apply levels_inBlock
        · intro deeper
          rfl
        · rfl
      exact .inr (Nat.le_of_eq kept)
  | start marked =>
      cases marked <;> cases kind <;> cases stepped <;>
        first
          | exact .inl rfl
          | exact .inr (Nat.le_refl _)
  | items outer => exact levels_of_itemNext stepped
  | opened outer =>
      by_cases isCode : kind = .codeKeyword
      · subst isCode
        cases stepped
        exact .inr (Nat.le_refl _)
      · rw [next_opened isCode] at stepped
        exact levels_of_itemNext stepped
  | _ =>
      cases kind <;> cases stepped <;>
        first
          | exact .inl rfl
          | exact .inr (Nat.le_refl _)

end Stage

/-- The kinds of a block lead from the keyword or the place in front of it to what is behind. -/
theorem BlockTree.run_eq {inside : Nat → Stage} {behind stage : Stage}
    (encloses : Stage.Encloses inside behind)
    (entered : stage.next .openBrace = some (inside 0)) (block : BlockTree)
    (rest : List TokenKind) :
    stage.run (block.lexemes.map Lexeme.kind ++ rest) = behind.run rest := by
  have closed : (inside 0).next .closeBrace = some behind := encloses 0 .closeBrace
  have inner := Stage.run_inside encloses (balanced_iff.mp block.balanced)
  rw [BlockTree.lexemes, List.map_cons, List.map_append, List.map_singleton,
    block.opening.isKind, block.closing.isKind, List.cons_append, List.append_assoc,
    List.singleton_append, Stage.run_of_next entered, Stage.run_append, inner, Option.bind_some,
    Stage.run_of_next closed]

theorem CodeTree.run_eq (code : CodeTree) (outer : Nat) (rest : List TokenKind) :
    (Stage.opened outer).run ((codeLexemes (some code)).map Lexeme.kind ++ rest) =
      (Stage.items outer).run rest := by
  have entered : (Stage.codeKeyword outer).next .openBrace = some (.code 0 outer) := rfl
  have block := BlockTree.run_eq (Stage.encloses_code outer) entered code.block rest
  rw [codeLexemes, List.map_cons, code.keyword.isKind]
  exact block

theorem DataTree.run_eq (entry : DataTree) (outer : Nat) (rest : List TokenKind) :
    (Stage.items outer).run (entry.lexemes.map Lexeme.kind ++ rest) =
      (Stage.items outer).run rest := by
  have valued : (Stage.dataName outer).next entry.value.lexeme.kind = some (.items outer) := by
    cases entry.value with
    | hex literal =>
        rw [ValueTree.lexeme, literal.isKind]
        rfl
    | string literal =>
        rw [ValueTree.lexeme, literal.isKind]
        rfl
  simp only [DataTree.lexemes, List.map_cons, List.map_nil, entry.keyword.isKind,
    entry.name.isKind, List.cons_append, List.nil_append]
  exact Stage.run_of_next valued rest

theorem run_start (pragma : Option (Terminal .pragma)) (rest : List TokenKind) :
    (Stage.start false).run ((pragmaLexemes pragma).map Lexeme.kind ++ rest) =
      (Stage.start pragma.isSome).run rest := by
  cases pragma with
  | none => rfl
  | some pragma =>
      have isPragma := pragma.isKind
      simp only [pragmaLexemes, Option.toList_some, List.map_cons, List.map_nil, isPragma]
      rfl

theorem run_nested (pragma : Option (Terminal .pragma)) (outer : Nat) (rest : List TokenKind) :
    (Stage.items outer).run ((pragmaLexemes pragma).map Lexeme.kind ++ .objectKeyword :: rest) =
      (Stage.keyword (outer + 1)).run rest := by
  cases pragma with
  | none => rfl
  | some pragma =>
      have isPragma := pragma.isKind
      simp only [pragmaLexemes, Option.toList_some, List.map_cons, List.map_nil, isPragma]
      rfl

theorem run_head {name : Terminal .stringLiteral} {opening : Terminal .openBrace} (outer : Nat)
    (rest : List TokenKind) :
    (Stage.keyword outer).run (name.lexeme.kind :: opening.lexeme.kind :: rest) =
      (Stage.opened outer).run rest := by
  rw [name.isKind, opening.isKind]
  rfl

/-- The kinds of items with a closing brace behind them lead on like those of the items do
behind an object's code. -/
theorem run_codeless (trees : List ItemTree) (closing : Terminal .closeBrace) (outer : Nat)
    (rest : List TokenKind) :
    (Stage.opened outer).run
        ((ItemTree.lexemesAll trees ++ [closing.lexeme]).map Lexeme.kind ++ rest) =
      (Stage.items outer).run
        ((ItemTree.lexemesAll trees ++ [closing.lexeme]).map Lexeme.kind ++ rest) := by
  obtain ⟨lexeme, others, row, noCode⟩ := ItemTree.lexemesAll_head trees closing []
  rw [row, List.map_cons, List.cons_append, Stage.run_opened noCode]

theorem ObjectTree.kinds_eq (tree : ObjectTree) :
    tree.lexemes.map Lexeme.kind = .objectKeyword :: tree.lexemes.tail.map Lexeme.kind := by
  cases tree with
  | mk keyword name opening code items closing =>
      rw [ObjectTree.lexemes, List.map_cons, keyword.isKind, List.tail_cons]

mutual

theorem ObjectTree.run_eq : ∀ (tree : ObjectTree) (outer : Nat) (rest : List TokenKind),
    (Stage.keyword outer).run (tree.lexemes.tail.map Lexeme.kind ++ rest) =
      (Stage.ended outer).run rest
  | { keyword, name, opening, code, items, closing }, outer, rest => by
      have closed : (Stage.items outer).next .closeBrace = some (Stage.ended outer) := rfl
      have inner : (Stage.items outer).run
          ((ItemTree.lexemesAll items ++ [closing.lexeme]).map Lexeme.kind ++ rest) =
            (Stage.ended outer).run rest := by
        rw [List.map_append, List.append_assoc, ItemTree.run_all items outer, List.map_singleton,
          closing.isKind, List.singleton_append, Stage.run_of_next closed]
      rw [ObjectTree.lexemes, List.tail_cons, List.map_cons, List.map_cons, List.cons_append,
        List.cons_append, run_head, List.map_append, List.append_assoc]
      cases code with
      | none =>
          rw [codeLexemes, List.map_nil, List.nil_append, run_codeless]
          exact inner
      | some code =>
          rw [code.run_eq]
          exact inner

theorem ItemTree.run_all : ∀ (trees : List ItemTree) (outer : Nat) (rest : List TokenKind),
    (Stage.items outer).run ((ItemTree.lexemesAll trees).map Lexeme.kind ++ rest) =
      (Stage.items outer).run rest
  | [], outer, rest => rfl
  | .data entry :: trees, outer, rest => by
      rw [ItemTree.lexemesAll, List.map_append, List.append_assoc, entry.run_eq,
        ItemTree.run_all trees outer rest]
  | .object pragma nested :: trees, outer, rest => by
      rw [ItemTree.lexemesAll, List.map_append, List.map_append, nested.kinds_eq,
        List.append_assoc, List.cons_append, List.cons_append, List.append_assoc, run_nested,
        nested.run_eq (outer + 1)]
      exact ItemTree.run_all trees outer rest

end

/-- The kinds of a whole derivation lead from the beginning to the end. -/
theorem RootTree.run_eq (tree : RootTree) :
    (Stage.start false).run (tree.lexemes.map Lexeme.kind) = some .finished := by
  cases tree with
  | block pragma lone =>
      have entered : (Stage.start pragma.isSome).next .openBrace = some (.loneBlock 0) := by
        cases pragma <;> rfl
      have block := BlockTree.run_eq Stage.encloses_loneBlock entered lone []
      rw [RootTree.lexemes, List.map_append, run_start]
      rw [List.append_nil] at block
      exact block
  | object pragma outermost =>
      have outermostRun := outermost.run_eq 0 []
      have entered : (Stage.start pragma.isSome).next .objectKeyword = some (.keyword 0) := by
        cases pragma <;> rfl
      rw [List.append_nil] at outermostRun
      rw [RootTree.lexemes, List.map_append, run_start, outermost.kinds_eq,
        Stage.run_of_next entered, outermostRun]
      rfl

/-! ## Completions -/

namespace Stage

/-- Kinds that complete a derivation. -/
def completion : Stage → List TokenKind
  | .start _ => [.openBrace, .closeBrace]
  | .loneBlock depth => List.replicate (depth + 1) .closeBrace
  | .keyword outer =>
      .stringLiteral :: .openBrace :: List.replicate (outer + 1) .closeBrace
  | .name outer => .openBrace :: List.replicate (outer + 1) .closeBrace
  | .opened outer => List.replicate (outer + 1) .closeBrace
  | .codeKeyword outer =>
      .openBrace :: .closeBrace :: List.replicate (outer + 1) .closeBrace
  | .code depth outer =>
      List.replicate (depth + 1) .closeBrace ++ List.replicate (outer + 1) .closeBrace
  | .items outer => List.replicate (outer + 1) .closeBrace
  | .pragma outer =>
      .objectKeyword :: .stringLiteral :: .openBrace :: List.replicate (outer + 2) .closeBrace
  | .dataKeyword outer =>
      .stringLiteral :: .stringLiteral :: List.replicate (outer + 1) .closeBrace
  | .dataName outer => .stringLiteral :: List.replicate (outer + 1) .closeBrace
  | .finished => []

theorem run_closings_items (outer : Nat) :
    (items outer).run (List.replicate (outer + 1) .closeBrace) = some .finished := by
  induction outer with
  | zero => rfl
  | succ outer inductionHypothesis => exact inductionHypothesis

theorem run_closings_opened (outer : Nat) :
    (opened outer).run (List.replicate (outer + 1) .closeBrace) = some .finished := by
  have noCode : TokenKind.closeBrace ≠ .codeKeyword := by decide
  rw [List.replicate_succ, run_opened noCode, ← List.replicate_succ, run_closings_items]

theorem run_closings_block {inside : Nat → Stage} {behind : Stage}
    (encloses : Encloses inside behind) (depth : Nat) :
    (inside depth).run (List.replicate (depth + 1) .closeBrace) = some behind := by
  induction depth with
  | zero =>
      rw [List.replicate_one, run_of_next (encloses 0 .closeBrace)]
      rfl
  | succ depth inductionHypothesis =>
      rw [List.replicate_succ, run_of_next (encloses (depth + 1) .closeBrace)]
      exact inductionHypothesis

/-- Every stage has a completion. -/
theorem run_completion (stage : Stage) : stage.run stage.completion = some .finished := by
  cases stage with
  | start marked => cases marked <;> rfl
  | loneBlock depth => exact run_closings_block encloses_loneBlock depth
  | keyword outer => exact run_closings_opened outer
  | name outer => exact run_closings_opened outer
  | opened outer => exact run_closings_opened outer
  | codeKeyword outer => exact run_closings_items outer
  | code depth outer =>
      have closed := run_closings_block (encloses_code outer) depth
      rw [completion, run_append, closed]
      exact run_closings_items outer
  | items outer => exact run_closings_items outer
  | pragma outer => exact run_closings_opened (outer + 1)
  | dataKeyword outer => exact run_closings_items outer
  | dataName outer => exact run_closings_items outer
  | finished => rfl

theorem isTrivia_of_mem_completion {stage : Stage} {kind : TokenKind}
    (member : kind ∈ stage.completion) : kind.isTrivia = false := by
  have isOneOf : kind = .openBrace ∨ kind = .closeBrace ∨ kind = .objectKeyword ∨
      kind = .stringLiteral := by
    cases stage <;> simp [completion] at member <;> grind
  rcases isOneOf with same | same | same | same <;> rw [same] <;> rfl

end Stage

end YulTree.Grammar

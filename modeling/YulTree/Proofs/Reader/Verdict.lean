import YulTree.Proofs.Reader.Soundness
import YulTree.Proofs.Reader.Unfinished

/-!
# Verdicts on single tokens

The reader advances as the kinds of the tokens let a derivation go on.  It refuses a token exactly
where no derivation does, apart from objects that are nested too deep and from tokens whose content
is faulty (`step_verdict`).
-/

namespace YulTree

/-- A fault in what a token contains, whatever its kind. -/
def ReadFault.IsContent : ReadFault → Prop
  | .oddHexDigits | .badEscape _ | .nameNotText | .badPragma _ | .attach _ => True
  | .unexpectedToken _ _ | .unexpectedEnd _ | .unclosedBlock | .tooDeep _ => False

namespace Reader

open Grammar

variable {κ : Type} {reader : Reader κ}

/-- What a state knows of the kinds that have been read. -/
def State.stage : State κ → Stage
  | .start table => .start table.isSome
  | .loneBlock _ block => .loneBlock block.depth
  | .keyword _ outer => .keyword outer.length
  | .name _ _ _ outer => .name outer.length
  | .opened _ outer => .opened outer.length
  | .codeKeyword _ outer => .codeKeyword outer.length
  | .code block _ outer => .code block.depth outer.length
  | .items _ outer => .items outer.length
  | .pragma _ _ outer => .pragma outer.length
  | .dataKeyword _ outer => .dataKeyword outer.length
  | .dataName _ _ _ outer => .dataName outer.length
  | .finished _ => .finished

def levelBraces (levels : List (Level κ)) : List Span := levels.map Level.braceSpan

/-- The places of the braces that are still open, innermost first. -/
def State.braces : State κ → List Span
  | .start _ | .finished _ => []
  | .loneBlock _ block => [block.braceSpan]
  | .keyword _ outer | .name _ _ _ outer => levelBraces outer
  | .opened level outer | .codeKeyword level outer | .items level outer | .pragma _ level outer
  | .dataKeyword level outer | .dataName _ _ level outer => levelBraces (level :: outer)
  | .code block level outer => block.braceSpan :: levelBraces (level :: outer)

/-- A state behind one more lexeme, where the kind of the lexeme leads. -/
structure Advances (reader : Reader κ) (state : State κ) (lexeme : Lexeme) (next : State κ) :
    Prop where
  stage : state.stage.next lexeme.kind = some next.stage
  braces : next.braces = state.stage.bracesAfter lexeme.kind lexeme.token.span state.braces
  room : ∀ outer, next.stage = .keyword outer → outer < reader.limit

/-- What may come of a step, and why. -/
inductive Verdict (reader : Reader κ) (state : State κ) (lexeme : Lexeme) :
    Except ReadError (State κ) → Prop where
  | advanced {next : State κ} :
      Advances reader state lexeme next → Verdict reader state lexeme (.ok next)
  | refused (expected : Expected) :
      state.stage.next lexeme.kind = none →
        Verdict reader state lexeme (unexpected expected lexeme.token)
  | tooDeep {outer : Nat} :
      state.stage.next lexeme.kind = some (.keyword outer) → reader.limit ≤ outer →
        Verdict reader state lexeme (.error ⟨.tooDeep reader.limit, lexeme.token.span⟩)
  | faulty {error : ReadError} :
      error.fault.IsContent → Verdict reader state lexeme (.error error)

theorem isContent_of_readText {token : Token} {error : ReadError}
    (failed : readText token = .error error) : error.fault.IsContent := by
  unfold readText at failed
  split at failed
  · cases failed
    trivial
  · split at failed
    · cases failed
    · cases failed
      trivial

theorem isContent_of_readPragma {token : Token} {error : ReadError}
    (failed : readPragma token = .error error) : error.fault.IsContent := by
  unfold readPragma at failed
  cases listed : SourceTable.ofPayload ((pragmaPayload? token.text).getD []) with
  | error fault =>
      rw [listed] at failed
      cases failed
      trivial
  | ok table =>
      rw [listed] at failed
      cases failed

theorem isContent_of_attach {level : Level κ} {node : Node κ} {place : Span} {error : ReadError}
    (failed : level.attach node place = .error error) : error.fault.IsContent := by
  unfold Level.attach at failed
  split at failed
  · cases failed
  · cases failed
    trivial

theorem isContent_of_readBytes {token : Token} {error : ReadError}
    (isLiteral : token.kind = .hexLiteral ∨ token.kind = .stringLiteral)
    (failed : readBytes token = .error error) : error.fault.IsContent := by
  unfold readBytes at failed
  split at failed
  · split at failed
    · cases failed
    · cases failed
      trivial
  · cases decoded : Text.Quoted.decodeLiteral token.text with
    | error escape =>
        rw [decoded] at failed
        cases failed
        trivial
    | ok bytes =>
        rw [decoded] at failed
        cases failed
  · next notHex notString =>
      rcases isLiteral with isHex | isString
      · exact absurd isHex notHex
      · exact absurd isString notString

section

variable {state : State κ} {lexeme : Lexeme}

/-- A part of a token that is decoded is faulty, or the reader advances with what it denotes. -/
theorem Verdict.of_map {α : Type} {result : Except ReadError α} {enter : α → State κ}
    (content : ∀ error, result = .error error → error.fault.IsContent)
    (advances : ∀ value, result = .ok value → Advances reader state lexeme (enter value)) :
    Verdict reader state lexeme (result.map enter) := by
  cases result with
  | error error => exact .faulty (content error rfl)
  | ok value => exact .advanced (advances value rfl)

/-- A step to a state that is not behind an object's keyword. -/
theorem Advances.of_ne_keyword {next : State κ}
    (allowed : state.stage.next lexeme.kind = some next.stage)
    (braces : next.braces = state.stage.bracesAfter lexeme.kind lexeme.token.span state.braces)
    (other : ∀ outer, next.stage ≠ .keyword outer) : Advances reader state lexeme next := by
  refine ⟨allowed, braces, ?_⟩
  intro outer same
  exact absurd same (other outer)

theorem verdict_beginObject {pragma : Option SourceTable} {outer : List (Level κ)}
    (allowed : state.stage.next lexeme.kind = some (.keyword outer.length))
    (braces : levelBraces outer =
      state.stage.bracesAfter lexeme.kind lexeme.token.span state.braces) :
    Verdict reader state lexeme (reader.beginObject pragma outer lexeme.token) := by
  unfold beginObject
  split
  · next tooMany => exact .tooDeep allowed tooMany
  · next enough =>
      refine .advanced ⟨allowed, braces, ?_⟩
      intro count same
      cases same
      exact Nat.lt_of_not_le enough

theorem braceSpan_of_attach {level grown : Level κ} {node : Node κ} {place : Span}
    (attached : level.attach node place = .ok grown) : grown.braceSpan = level.braceSpan := by
  obtain ⟨-, rfl⟩ := Level.attach_eq_ok attached
  rfl

theorem verdict_startStep {pragma : Option SourceTable} :
    Verdict reader (.start pragma) lexeme (reader.startStep pragma lexeme.token) := by
  obtain ⟨lead, ⟨kind, text, start⟩⟩ := lexeme
  cases kind with
  | pragma =>
      cases pragma with
      | none =>
          apply Verdict.of_map
          · intro error failed
            exact isContent_of_readPragma failed
          · intro table listed
            exact .of_ne_keyword rfl rfl (by simp [State.stage])
      | some table => exact .refused .objectOrBlock rfl
  | openBrace =>
      refine .advanced (.of_ne_keyword ?_ rfl (by simp [State.stage]))
      cases pragma <;> rfl
  | objectKeyword =>
      refine verdict_beginObject ?_ rfl
      cases pragma <;> rfl
  | _ =>
      refine .refused .objectOrBlock ?_
      cases pragma <;> rfl

/-- A child may not fit, or its object goes on behind it. -/
theorem verdict_attach {level : Level κ} {outer : List (Level κ)} {node : Node κ} {place : Span}
    (allowed : state.stage.next lexeme.kind = some (.items outer.length))
    (braces : state.stage.bracesAfter lexeme.kind lexeme.token.span state.braces =
      levelBraces (level :: outer)) :
    Verdict reader state lexeme ((level.attach node place).map (.items · outer)) := by
  apply Verdict.of_map
  · intro error failed
    exact isContent_of_attach failed
  · intro grown attached
    refine .of_ne_keyword allowed ?_ (by simp [State.stage])
    rw [braces, State.braces, levelBraces, levelBraces, List.map_cons, List.map_cons,
      braceSpan_of_attach attached]

theorem verdict_endObject {level : Level κ} {outer : List (Level κ)}
    (allowed : state.stage.next lexeme.kind = some (.ended outer.length))
    (braces : state.stage.bracesAfter lexeme.kind lexeme.token.span state.braces =
      levelBraces outer) :
    Verdict reader state lexeme (endObject level outer) := by
  cases outer with
  | nil => exact .advanced (.of_ne_keyword allowed braces.symm (by simp [State.stage]))
  | cons parent outer =>
      exact verdict_attach allowed braces

theorem verdict_itemStep {level : Level κ} {outer : List (Level κ)}
    (allowed : state.stage.next lexeme.kind = Stage.itemNext outer.length lexeme.kind)
    (braces : state.stage.bracesAfter lexeme.kind lexeme.token.span state.braces =
      (Stage.items outer.length).bracesAfter lexeme.kind lexeme.token.span
        (levelBraces (level :: outer))) :
    Verdict reader state lexeme (reader.itemStep level outer lexeme.token) := by
  obtain ⟨lead, ⟨kind, text, start⟩⟩ := lexeme
  cases kind with
  | closeBrace => exact verdict_endObject allowed braces
  | dataKeyword =>
      exact .advanced (.of_ne_keyword allowed braces.symm (by simp [State.stage]))
  | objectKeyword => exact verdict_beginObject allowed braces.symm
  | pragma =>
      apply Verdict.of_map
      · intro error failed
        exact isContent_of_readPragma failed
      · intro table listed
        exact .of_ne_keyword allowed braces.symm (by simp [State.stage])
  | _ => exact .refused .item allowed

/-- A literal in the place of a value is faulty, or it makes one more child. -/
theorem verdict_value {name : Text} {nameSpan : Span} {level : Level κ} {outer : List (Level κ)}
    (isLiteral : lexeme.kind = .hexLiteral ∨ lexeme.kind = .stringLiteral)
    (allowed : state.stage.next lexeme.kind = some (.items outer.length))
    (braces : state.stage.bracesAfter lexeme.kind lexeme.token.span state.braces =
      levelBraces (level :: outer)) :
    Verdict reader state lexeme
      ((readBytes lexeme.token).bind fun bytes =>
        (level.attach (.data ⟨name, bytes⟩) nameSpan).map (.items · outer)) := by
  cases decoded : readBytes lexeme.token with
  | error error => exact .faulty (isContent_of_readBytes isLiteral decoded)
  | ok bytes =>
      exact verdict_attach allowed braces

/-- The reader advances over every token of a block and over its closing brace. -/
theorem verdict_block {enter : Nat → Grammar.Stage} {ended : Grammar.Stage}
    (surrounds : Stage.Surrounds enter ended) (around : List Span)
    (inside : OpenBlock → State κ) (behind : Text → State κ)
    (within : ∀ block, (inside block).stage = enter block.depth ∧
      (inside block).braces = block.braceSpan :: around)
    (closed : ∀ body, (behind body).stage = ended ∧ (behind body).braces = around)
    {block : OpenBlock} (stepped : reader.step (inside block) lexeme =
      .ok (Sum.elim inside behind (block.step lexeme))) :
    Verdict reader (inside block) lexeme (reader.step (inside block) lexeme) := by
  obtain ⟨stage, braces⟩ := within block
  rw [stepped, OpenBlock.step_eq]
  cases counted : Balanced.depthStep block.depth lexeme.token.kind with
  | none =>
      obtain ⟨stageBehind, bracesBehind⟩ := closed (block.push lexeme.lead).body
      refine .advanced (.of_ne_keyword ?_ ?_ ?_)
      · rw [stage, surrounds.next, Stage.inBlock, Lexeme.kind, counted]
        exact congrArg some stageBehind.symm
      · rw [stage, braces, surrounds.bracesAfter, Lexeme.kind, counted]
        exact bracesBehind
      · rw [Sum.elim_inr, stageBehind]
        exact surrounds.notKeyword
  | some depth =>
      obtain ⟨stageOnward, bracesOnward⟩ := within { block.push lexeme.whole with depth }
      refine .advanced (.of_ne_keyword ?_ ?_ ?_)
      · rw [stage, surrounds.next, Stage.inBlock, Lexeme.kind, counted]
        exact congrArg some stageOnward.symm
      · rw [stage, braces, surrounds.bracesAfter, Lexeme.kind, counted]
        exact bracesOnward
      · rw [Sum.elim_inl, stageOnward]
        exact surrounds.next.ne_keyword depth

/-- Every step ends in one of the verdicts. -/
theorem step_verdict (reader : Reader κ) (state : State κ) (lexeme : Lexeme) :
    Verdict reader state lexeme (reader.step state lexeme) := by
  cases state with
  | start pragma => exact verdict_startStep
  | loneBlock pragma block =>
      refine verdict_block Stage.surrounds_loneBlock [] (.loneBlock pragma) _ ?_ ?_ step_loneBlock
      · intro block
        exact ⟨rfl, rfl⟩
      · intro body
        exact ⟨rfl, rfl⟩
  | keyword pragma outer =>
      obtain ⟨lead, ⟨kind, text, start⟩⟩ := lexeme
      cases kind with
      | stringLiteral =>
          apply Verdict.of_map
          · intro error failed
            exact isContent_of_readText failed
          · intro name decoded
            exact .of_ne_keyword rfl rfl (by simp [State.stage])
      | _ => exact .refused .objectName rfl
  | name pragma name nameSpan outer =>
      obtain ⟨lead, ⟨kind, text, start⟩⟩ := lexeme
      cases kind with
      | openBrace => exact .advanced (.of_ne_keyword rfl rfl (by simp [State.stage]))
      | _ => exact .refused .openBrace rfl
  | opened level outer =>
      obtain ⟨lead, ⟨kind, text, start⟩⟩ := lexeme
      cases kind with
      | codeKeyword => exact .advanced (.of_ne_keyword rfl rfl (by simp [State.stage]))
      | _ => exact verdict_itemStep rfl rfl
  | codeKeyword level outer =>
      obtain ⟨lead, ⟨kind, text, start⟩⟩ := lexeme
      cases kind with
      | openBrace => exact .advanced (.of_ne_keyword rfl rfl (by simp [State.stage]))
      | _ => exact .refused .openBrace rfl
  | code block level outer =>
      refine verdict_block (Stage.surrounds_code outer.length) (levelBraces (level :: outer))
        (.code · level outer) _ ?_ ?_ step_code
      · intro block
        exact ⟨rfl, rfl⟩
      · intro body
        exact ⟨rfl, rfl⟩
  | items level outer => exact verdict_itemStep rfl rfl
  | pragma table level outer =>
      obtain ⟨lead, ⟨kind, text, start⟩⟩ := lexeme
      cases kind with
      | objectKeyword => exact verdict_beginObject rfl rfl
      | _ => exact .refused .object rfl
  | dataKeyword level outer =>
      obtain ⟨lead, ⟨kind, text, start⟩⟩ := lexeme
      cases kind with
      | stringLiteral =>
          apply Verdict.of_map
          · intro error failed
            exact isContent_of_readText failed
          · intro name decoded
            exact .of_ne_keyword rfl rfl (by simp [State.stage])
      | _ => exact .refused .dataName rfl
  | dataName name nameSpan level outer =>
      obtain ⟨lead, ⟨kind, text, start⟩⟩ := lexeme
      cases kind with
      | hexLiteral => exact verdict_value (.inl rfl) rfl rfl
      | stringLiteral => exact verdict_value (.inr rfl) rfl rfl
      | _ => exact .refused .literal rfl
  | finished object => exact .refused .endOfInput rfl

end

/-! ## Runs -/

/-- A state of the reader behind a derivation that breaks off. -/
structure Traced (reader : Reader κ) (state : State κ) (unfinished : Unfinished) : Prop where
  reached : (Stage.start false).run (unfinished.lexemes.map Lexeme.kind) = some state.stage
  stage : unfinished.stage = state.stage
  braces : unfinished.braces = state.braces
  room : state.stage.levels ≤ reader.limit

theorem Traced.start (reader : Reader κ) : Traced reader (.start none) (.start none) :=
  ⟨rfl, rfl, rfl, Nat.zero_le _⟩

/-- What the reader has come to is the front of a derivation, and stays so as it advances. -/
theorem Traced.exists_of_step {state next : State κ} {unfinished : Unfinished} {lexeme : Lexeme}
    (traced : Traced reader state unfinished) (stepped : reader.step state lexeme = .ok next) :
    ∃ longer : Unfinished, longer.lexemes = unfinished.lexemes ++ [lexeme] ∧
      Traced reader next longer := by
  have verdict := step_verdict reader state lexeme
  rw [stepped] at verdict
  cases verdict with
  | advanced advances =>
      have allowed : unfinished.stage.next lexeme.kind = some next.stage := by
        rw [traced.stage]
        exact advances.stage
      obtain ⟨longer, row, sameStage, sameBraces⟩ := unfinished.exists_extends allowed
      refine ⟨longer, row, ?_, sameStage, ?_, ?_⟩
      · rw [row, List.map_append, Stage.run_append, traced.reached, Option.bind_some,
          List.map_singleton, Stage.run_of_next advances.stage]
        rfl
      · rw [sameBraces, traced.stage, traced.braces, advances.braces]
      · rcases Stage.levels_of_next advances.stage with begins | fewer
        · rw [begins]
          exact advances.room _ begins
        · exact Nat.le_trans fewer traced.room

/-- The reader fails at a token or at the end, and there it is behind the front of a
derivation. -/
theorem Traced.cases_of_error {state : State κ} {unfinished : Unfinished} {size : Nat}
    {lexemes : List Lexeme} {error : ReadError} (traced : Traced reader state unfinished)
    (failed : reader.resume size state lexemes = .error error) :
    (∃ here front lexeme rest, unfinished.lexemes ++ lexemes = front.lexemes ++ lexeme :: rest ∧
      Traced reader here front ∧ reader.step here lexeme = .error error) ∨
    ∃ here whole, unfinished.lexemes ++ lexemes = whole.lexemes ∧
      Traced reader here whole ∧ finish size here = .error error := by
  induction lexemes generalizing state unfinished with
  | nil => exact .inr ⟨state, unfinished, List.append_nil _, traced, failed⟩
  | cons lexeme rest inductionHypothesis =>
      rw [resume_cons] at failed
      cases stepped : reader.step state lexeme with
      | error other =>
          rw [stepped] at failed
          cases failed
          exact .inl ⟨state, unfinished, lexeme, rest, rfl, traced, stepped⟩
      | ok next =>
          rw [stepped] at failed
          obtain ⟨longer, row, longerTraced⟩ := traced.exists_of_step stepped
          have cut : unfinished.lexemes ++ lexeme :: rest = longer.lexemes ++ rest := by
            rw [row, List.append_assoc, List.singleton_append]
          rw [cut]
          exact inductionHypothesis longerTraced failed

theorem cases_of_read_error {source : Text} {error : ReadError}
    (failed : reader.read source = .error error) :
    (∃ state front lexeme rest, Lexeme.all source = front.lexemes ++ lexeme :: rest ∧
      Traced reader state front ∧ reader.step state lexeme = .error error) ∨
    ∃ state whole, Lexeme.all source = whole.lexemes ∧
      Traced reader state whole ∧ finish source.byteSize state = .error error :=
  (Traced.start reader).cases_of_error failed

end Reader

end YulTree

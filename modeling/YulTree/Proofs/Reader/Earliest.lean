import YulTree.Proofs.Reader.Verdict

/-!
# Syntax errors

A token is refused where the source up to it cannot be the front of a text of the grammar any more,
and the input ends too early where it still can be (`read_earliest`).  A block that is never closed
is shown by the brace which opens it.
-/

namespace YulTree

open Grammar

namespace Reader

variable {κ : Type} {reader : Reader κ}

/-- The input ends before an object is whole, perhaps while a brace is open. -/
theorem unfinished_of_finish {state : State κ} {size : Nat} {error : ReadError}
    (failed : finish size state = .error error) :
    state.stage ≠ .finished ∧ (∀ expected found, error.fault ≠ .unexpectedToken expected found) ∧
      (error.fault = .unclosedBlock → state.braces.head? = some error.span) := by
  cases state <;> cases failed <;> simp [State.stage, State.braces, levelBraces]

theorem not_unclosed_of_step {state : State κ} {lexeme : Lexeme} {error : ReadError}
    (failed : reader.step state lexeme = .error error) :
    (∀ expected, error.fault ≠ .unexpectedEnd expected) ∧ error.fault ≠ .unclosedBlock := by
  have verdict := step_verdict reader state lexeme
  rw [failed] at verdict
  cases verdict with
  | refused expected stopped => simp
  | tooDeep begins full => simp
  | faulty content =>
      constructor
      · intro expected same
        rw [same] at content
        exact content
      · intro same
        rw [same] at content
        exact content

/-- A token is refused only where no derivation goes on with it. -/
theorem next_eq_none_of_step {state : State κ} {lexeme : Lexeme} {error : ReadError}
    {expected : Expected} {found : TokenKind} (failed : reader.step state lexeme = .error error)
    (isToken : error.fault = .unexpectedToken expected found) :
    state.stage.next lexeme.kind = none ∧ lexeme.kind = found ∧ lexeme.token.span = error.span := by
  have verdict := step_verdict reader state lexeme
  rw [failed] at verdict
  cases verdict with
  | refused expected stopped =>
      cases isToken
      exact ⟨stopped, rfl, rfl⟩
  | tooDeep begins full => cases isToken
  | faulty content =>
      rw [isToken] at content
      cases content

end Reader

def Token.kinds (source : Text) : List TokenKind := (Token.significant source).map Token.kind

theorem Token.kinds_eq (source : Text) : kinds source = (Lexeme.all source).map Lexeme.kind := by
  rw [kinds, ← Lexeme.tokens_all, List.map_map]
  rfl

theorem Token.isTrivia_of_mem_kinds {source : Text} {kind : TokenKind}
    (member : kind ∈ kinds source) : kind.isTrivia = false := by
  obtain ⟨token, isToken, rfl⟩ := List.mem_map.mp member
  simpa using (List.mem_filter.mp isToken).2

section

variable {κ : Type} {reader : Reader κ} {source : Text} {state : Reader.State κ}
  {front : Unfinished}

/-- What has been read is the front of a text of the grammar. -/
theorem viable_of_traced {rest : List Lexeme} (traced : Reader.Traced reader state front)
    (row : Lexeme.all source = front.lexemes ++ rest) :
    Viable (front.lexemes.map Lexeme.kind) := by
  refine viable_iff.mpr ⟨?_, Option.isSome_iff_exists.mpr ⟨state.stage, traced.reached⟩⟩
  intro kind member
  have isKind : kind ∈ Token.kinds source := by
    rw [Token.kinds_eq, row, List.map_append]
    exact List.mem_append_left _ member
  exact Token.isTrivia_of_mem_kinds isKind

theorem not_viable_of_traced {kind : TokenKind} (traced : Reader.Traced reader state front)
    (stopped : state.stage.next kind = none) :
    ¬ Viable (front.lexemes.map Lexeme.kind ++ [kind]) := by
  intro viable
  have reached := (viable_iff.mp viable).2
  rw [Stage.run_append, traced.reached, Option.bind_some, Stage.run_cons, stopped] at reached
  cases reached

theorem not_derivable_of_traced (traced : Reader.Traced reader state front)
    (unfinished : state.stage ≠ .finished) : ¬ Derivable (front.lexemes.map Lexeme.kind) := by
  intro derived
  have reached := (derivable_iff.mp derived).2
  rw [traced.reached] at reached
  exact unfinished (Option.some.inj reached)

end

/-- An error that stands at the first place where it can be seen. -/
structure Earliest (source : Text) (error : ReadError) : Prop where
  atToken : ∀ expected found, error.fault = .unexpectedToken expected found →
    ∃ front token rest, Token.significant source = front ++ token :: rest ∧
      token.kind = found ∧ token.span = error.span ∧
      Viable (front.map Token.kind) ∧ ¬ Viable (front.map Token.kind ++ [token.kind])
  atEnd : (∃ expected, error.fault = .unexpectedEnd expected) ∨ error.fault = .unclosedBlock →
    (∃ rest, rest ≠ [] ∧ Derivable (Token.kinds source ++ rest)) ∧
      ¬ Derivable (Token.kinds source)
  atBrace : error.fault = .unclosedBlock →
    ∃ unfinished : Unfinished, unfinished.lexemes = Lexeme.all source ∧
      unfinished.braces.head? = some error.span

section

variable {κ : Type} {reader : Reader κ} {source : Text} {state : Reader.State κ}
  {front : Unfinished} {error : ReadError}

theorem earliest_of_step {lexeme : Lexeme} {rest : List Lexeme}
    (row : Lexeme.all source = front.lexemes ++ lexeme :: rest)
    (traced : Reader.Traced reader state front)
    (failed : reader.step state lexeme = .error error) : Earliest source error := by
  obtain ⟨notEnd, notUnclosed⟩ := Reader.not_unclosed_of_step failed
  constructor
  · intro expected found isToken
    obtain ⟨stopped, isFound, place⟩ := Reader.next_eq_none_of_step failed isToken
    have sameKinds : (front.lexemes.map Lexeme.token).map Token.kind =
        front.lexemes.map Lexeme.kind := by
      rw [List.map_map]
      rfl
    refine ⟨front.lexemes.map Lexeme.token, lexeme.token, rest.map Lexeme.token, ?_, isFound,
      place, ?_, ?_⟩
    · rw [← Lexeme.tokens_all, row, List.map_append, List.map_cons]
    · rw [sameKinds]
      exact viable_of_traced traced row
    · rw [sameKinds]
      exact not_viable_of_traced traced stopped
  · intro ended
    rcases ended with ⟨expected, isEnd⟩ | isUnclosed
    · exact absurd isEnd (notEnd expected)
    · exact absurd isUnclosed notUnclosed
  · intro isUnclosed
    exact absurd isUnclosed notUnclosed

theorem earliest_of_finish {size : Nat} (row : Lexeme.all source = front.lexemes)
    (traced : Reader.Traced reader state front)
    (failed : Reader.finish size state = .error error) : Earliest source error := by
  obtain ⟨unfinished, notToken, brace⟩ := Reader.unfinished_of_finish failed
  have sameKinds : front.lexemes.map Lexeme.kind = Token.kinds source := by
    rw [Token.kinds_eq, row]
  have notDerived : ¬ Derivable (Token.kinds source) := by
    rw [← sameKinds]
    exact not_derivable_of_traced traced unfinished
  constructor
  · intro expected found isToken
    exact absurd isToken (notToken expected found)
  · intro _
    have viable := viable_of_traced traced (row.trans (List.append_nil _).symm)
    rw [sameKinds] at viable
    obtain ⟨rest, derived⟩ := viable
    refine ⟨⟨rest, ?_, derived⟩, notDerived⟩
    intro nothing
    rw [nothing, List.append_nil] at derived
    exact notDerived derived
  · intro isUnclosed
    refine ⟨front, row.symm, ?_⟩
    rw [traced.braces]
    exact brace isUnclosed

end

/-- Whatever is wrong with the kinds of the tokens is reported as early as it can be seen. -/
theorem Object.read_earliest {options : ReadOptions} {source : Text} {error : ReadError}
    (failed : Object.read options source = .error error) : Earliest source error := by
  rcases Reader.cases_of_read_error failed with
    ⟨state, front, lexeme, rest, row, traced, stepFailed⟩ |
      ⟨state, whole, row, traced, finishFailed⟩
  · exact earliest_of_step row traced stepFailed
  · exact earliest_of_finish row traced finishFailed

/-- A byte string without a value, and a block of code with two open braces. -/
theorem Object.read_earliest_broken :
    Object.read .standard "object \"A\" \x7b data \"d\" \x7d" =
        .error ⟨.unexpectedToken .literal .closeBrace, ⟨22, 23⟩⟩ ∧
      Earliest "object \"A\" \x7b data \"d\" \x7d"
        ⟨.unexpectedToken .literal .closeBrace, ⟨22, 23⟩⟩ ∧
      Object.read .standard "object \"A\" \x7b code \x7b \x7b" =
        .error ⟨.unclosedBlock, ⟨18, 19⟩⟩ ∧
      Earliest "object \"A\" \x7b code \x7b \x7b" ⟨.unclosedBlock, ⟨18, 19⟩⟩ := by
  have tokenFailed : Object.read .standard "object \"A\" \x7b data \"d\" \x7d" =
      .error ⟨.unexpectedToken .literal .closeBrace, ⟨22, 23⟩⟩ := by
    apply Reader.eq_error_of_error?
    decide +kernel
  have blockFailed : Object.read .standard "object \"A\" \x7b code \x7b \x7b" =
      .error ⟨.unclosedBlock, ⟨18, 19⟩⟩ := by
    apply Reader.eq_error_of_error?
    decide +kernel
  exact ⟨tokenFailed, Object.read_earliest tokenFailed, blockFailed,
    Object.read_earliest blockFailed⟩

end YulTree

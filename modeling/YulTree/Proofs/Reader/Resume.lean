import YulTree.Proofs.Token.Balance
import YulTree.Reader.Read

/-!
# Reading on

What comes of a row of lexemes from a given state of the reader.  A code block is read up to the
brace that balances its opening brace, and its body is all that stands between the two
(`close?_eq_some_iff`).
-/

namespace YulTree

namespace Reader

open YulTree.Balanced

section

variable {ε ε' α β : Type}

theorem mapError_eq_ok_iff {adapt : ε → ε'} {result : Except ε α} {value : α} :
    result.mapError adapt = .ok value ↔ result = .ok value := by
  cases result with
  | error fault => constructor <;> intro succeeds <;> cases succeeds
  | ok kept => constructor <;> intro succeeds <;> cases succeeds <;> rfl

theorem exists_of_isSome {result : Except ε α} (succeeds : result.toOption.isSome = true) :
    ∃ value, result = .ok value := by
  cases result with
  | error error => cases succeeds
  | ok value => exact ⟨value, rfl⟩

def error? : Except ε α → Option ε
  | .error error => some error
  | .ok _ => none

theorem eq_error_of_error? {result : Except ε α} {error : ε} (failed : error? result = some error) :
    result = .error error := by
  cases result with
  | error other => exact congrArg _ (Option.some.inj failed)
  | ok value => cases failed

theorem exists_of_map_eq_ok {result : Except ε α} {change : α → β} {image : β}
    (mapped : result.map change = .ok image) :
    ∃ value, result = .ok value ∧ image = change value := by
  cases result with
  | error error => cases mapped
  | ok value => exact ⟨value, rfl, (Except.ok.inj mapped).symm⟩

theorem exists_of_bind_eq_ok {result : Except ε α} {next : α → Except ε β} {image : β}
    (bound : result.bind next = .ok image) :
    ∃ value, result = .ok value ∧ next value = .ok image := by
  cases result with
  | error error => cases bound
  | ok value => exact ⟨value, rfl, bound⟩

end

variable {κ : Type}

/-- The object that is read from a state on, if the input ends at the given position. -/
def resume (reader : Reader κ) (size : Nat) (state : State κ) (lexemes : List Lexeme) :
    Except ReadError (Object κ) :=
  (reader.run state lexemes).bind (finish size)

theorem resume_nil (reader : Reader κ) (size : Nat) (state : State κ) :
    reader.resume size state [] = finish size state := rfl

theorem resume_cons (reader : Reader κ) (size : Nat) (state : State κ) (lexeme : Lexeme)
    (rest : List Lexeme) :
    reader.resume size state (lexeme :: rest) =
      (reader.step state lexeme).bind (reader.resume size · rest) := by
  unfold resume run
  rw [List.foldlM_cons]
  cases reader.step state lexeme <;> rfl

theorem read_eq_resume (reader : Reader κ) (source : Text) :
    reader.read source =
      reader.resume source.byteSize (.start none) (Lexeme.all source) := rfl

/-- A successful step goes on from the state that it leads to. -/
theorem resume_of_step {reader : Reader κ} {state next : State κ} {lexeme : Lexeme}
    (stepped : reader.step state lexeme = .ok next) (size : Nat) (rest : List Lexeme) :
    reader.resume size state (lexeme :: rest) = reader.resume size next rest := by
  rw [resume_cons, stepped]
  rfl

/-- What can be read from a lexeme on has been read one step further. -/
theorem exists_step_of_resume {reader : Reader κ} {size : Nat} {state : State κ}
    {lexeme : Lexeme} {rest : List Lexeme} {object : Object κ}
    (read : reader.resume size state (lexeme :: rest) = .ok object) :
    ∃ next, reader.step state lexeme = .ok next ∧
      reader.resume size next rest = .ok object := by
  rw [resume_cons] at read
  exact exists_of_bind_eq_ok read

namespace OpenBlock

/-- The body that ends at the partner of the opening brace, and what follows. -/
def close? (block : OpenBlock) : List Lexeme → Option (Text × List Lexeme)
  | [] => none
  | lexeme :: rest =>
      match block.step lexeme with
      | .inl block => close? block rest
      | .inr body => some (body, rest)

/-- A block ends where a brace is closed that was never opened in it. -/
theorem step_eq (block : OpenBlock) (lexeme : Lexeme) :
    block.step lexeme =
      match depthStep block.depth lexeme.token.kind with
      | none => .inr (block.push lexeme.lead).body
      | some depth => .inl { block.push lexeme.whole with depth } := by
  unfold OpenBlock.step
  cases kind : lexeme.token.kind with
  | closeBrace => cases depth : block.depth <;> rfl
  | _ => rfl

/-- A block ends at the first brace that balances its opening one. -/
theorem close?_eq_some_iff {block : OpenBlock} {lexemes rest : List Lexeme} {body : Text} :
    block.close? lexemes = some (body, rest) ↔
      ∃ inner closing, lexemes = inner ++ closing :: rest ∧
        closing.token.kind = .closeBrace ∧
        depthAfter block.depth (inner.map fun lexeme => lexeme.token.kind) = some 0 ∧
        body = block.body ++ ((inner.map Lexeme.whole).flatten ++ closing.lead) := by
  induction lexemes generalizing block with
  | nil =>
      constructor
      · intro closed
        cases closed
      · rintro ⟨inner, closing, cut, -⟩
        exact absurd cut (by simp)
  | cons lexeme lexemes inductionHypothesis =>
      rw [close?, step_eq]
      cases counted : depthStep block.depth lexeme.token.kind with
      | none =>
          have closes := depthStep_eq_none_iff.mp counted
          constructor
          · intro closed
            obtain ⟨rfl, rfl⟩ := Prod.mk.inj (Option.some.inj closed)
            exact ⟨[], lexeme, rfl, closes.1, by rw [closes.2]; rfl, by simp⟩
          · rintro ⟨inner, closing, cut, -, balanced, rfl⟩
            cases inner with
            | nil =>
                obtain ⟨rfl, rfl⟩ := List.cons.inj cut
                simp
            | cons first inner =>
                obtain ⟨rfl, -⟩ := List.cons.inj cut
                rw [List.map_cons, depthAfter_cons, counted] at balanced
                cases balanced
      | some depth =>
          have body : ({ block.push lexeme.whole with depth } : OpenBlock).body =
              block.body ++ lexeme.whole := body_push block lexeme.whole
          simp only [inductionHypothesis, body]
          constructor
          · rintro ⟨inner, closing, rfl, closes, balanced, rfl⟩
            refine ⟨lexeme :: inner, closing, rfl, closes, ?_, by simp⟩
            rw [List.map_cons, depthAfter_cons, counted]
            exact balanced
          · rintro ⟨inner, closing, cut, closes, balanced, rfl⟩
            cases inner with
            | nil =>
                obtain ⟨rfl, -⟩ := List.cons.inj cut
                have zero : block.depth = 0 := Option.some.inj balanced
                rw [closes, zero] at counted
                cases counted
            | cons first inner =>
                obtain ⟨rfl, rfl⟩ := List.cons.inj cut
                rw [List.map_cons, depthAfter_cons, counted] at balanced
                exact ⟨inner, closing, rfl, closes, balanced, by simp⟩

/-- An unclosed block stays where it was opened. -/
theorem close?_congr {block grown : OpenBlock} {lexeme : Lexeme}
    (stepped : block.step lexeme = .inl grown) (rest : List Lexeme) :
    block.close? (lexeme :: rest) = grown.close? rest ∧
      grown.braceSpan = block.braceSpan := by
  constructor
  · rw [close?, stepped]
  · rw [step_eq] at stepped
    split at stepped
    · cases stepped
    · obtain rfl := Sum.inl.inj stepped
      rfl

end OpenBlock

/-- A block is read as a whole, whatever state it is read in. -/
theorem resume_block {reader : Reader κ} {size : Nat} (inside : OpenBlock → State κ)
    (behind : Text → State κ)
    (step : ∀ block lexeme, reader.step (inside block) lexeme =
      .ok (Sum.elim inside behind (block.step lexeme)))
    (unclosed : ∀ block, finish size (inside block) = .error ⟨.unclosedBlock, block.braceSpan⟩)
    (block : OpenBlock) (lexemes : List Lexeme) :
    reader.resume size (inside block) lexemes =
      match block.close? lexemes with
      | none => .error ⟨.unclosedBlock, block.braceSpan⟩
      | some (body, rest) => reader.resume size (behind body) rest := by
  induction lexemes generalizing block with
  | nil => exact unclosed block
  | cons lexeme lexemes inductionHypothesis =>
      rw [resume_of_step (step block lexeme)]
      cases stepped : block.step lexeme with
      | inl grown =>
          obtain ⟨sameEnd, sameSpan⟩ := OpenBlock.close?_congr stepped lexemes
          rw [Sum.elim_inl, inductionHypothesis, sameEnd, sameSpan]
      | inr body =>
          rw [OpenBlock.close?, stepped]
          rfl

theorem step_code {reader : Reader κ} {block : OpenBlock} {level : Level κ}
    {outer : List (Level κ)} {lexeme : Lexeme} :
    reader.step (.code block level outer) lexeme =
      .ok (Sum.elim (fun block => .code block level outer)
        (fun body =>
          .items { level with object := level.object.setCode (reader.payload body) none } outer)
        (block.step lexeme)) := by
  simp only [step]
  cases block.step lexeme <;> rfl

theorem step_loneBlock {reader : Reader κ} {pragma : Option SourceTable} {block : OpenBlock}
    {lexeme : Lexeme} :
    reader.step (.loneBlock pragma block) lexeme =
      .ok (Sum.elim (fun block => .loneBlock pragma block)
        (fun body =>
          .finished ((Object.unnamed.setCode (reader.payload body) none).setPragma pragma))
        (block.step lexeme)) := by
  simp only [step]
  cases block.step lexeme <;> rfl

theorem resume_code (reader : Reader κ) (size : Nat) (block : OpenBlock) (level : Level κ)
    (outer : List (Level κ)) (lexemes : List Lexeme) :
    reader.resume size (.code block level outer) lexemes =
      match block.close? lexemes with
      | none => .error ⟨.unclosedBlock, block.braceSpan⟩
      | some (body, rest) =>
          reader.resume size
            (.items { level with object := level.object.setCode (reader.payload body) none }
              outer) rest := by
  refine resume_block (fun block => .code block level outer)
    (fun body =>
      .items { level with object := level.object.setCode (reader.payload body) none } outer)
    ?_ (fun _ => rfl) block lexemes
  intro block lexeme
  exact step_code

theorem resume_loneBlock (reader : Reader κ) (size : Nat) (pragma : Option SourceTable)
    (block : OpenBlock) (lexemes : List Lexeme) :
    reader.resume size (.loneBlock pragma block) lexemes =
      match block.close? lexemes with
      | none => .error ⟨.unclosedBlock, block.braceSpan⟩
      | some (body, rest) =>
          reader.resume size
            (.finished
              ((Object.unnamed.setCode (reader.payload body) none).setPragma pragma)) rest := by
  refine resume_block (fun block => .loneBlock pragma block)
    (fun body =>
      .finished ((Object.unnamed.setCode (reader.payload body) none).setPragma pragma))
    ?_ (fun _ => rfl) block lexemes
  intro block lexeme
  exact step_loneBlock

end Reader

end YulTree

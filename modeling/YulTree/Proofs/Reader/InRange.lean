import YulTree.Proofs.Reader.Layout
import YulTree.Proofs.Reader.Ranged
import YulTree.Proofs.Reader.Verdict

/-!
# Reading in range

Of a short source no range is taken that is not there, no count falls below zero, and every error
is shown at a place of the source (`read_ranged`).  Two readers go in step: one knows the lexemes of
the source, and the other only their stored places.
-/

namespace YulTree.Ranged

open Reader Token

variable {κ : Type}

/-- A block with a count of its own opening brace, and without its text. -/
def counted (block : OpenBlock) : OpenBlock := ⟨block.braceSpan, block.depth + 1, []⟩

def countedState : State κ → State κ
  | .loneBlock pragma block => .loneBlock pragma (counted block)
  | .code block level outer => .code (counted block) level outer
  | state => state

def cursorOf (state : State κ) : Cursor κ := ⟨countedState state, state.stage.levels⟩

theorem beginObject_eq (reader : Reader κ) (pragma : Option SourceTable) (outer : List (Level κ))
    (token : Token) :
    beginObject reader pragma outer token outer.length =
      (reader.beginObject pragma outer token).map cursorOf := by
  unfold beginObject Reader.beginObject
  split <;> rfl

theorem endObject_eq (level : Level κ) (outer : List (Level κ)) :
    (endObject level outer).map (Cursor.mk · outer.length) =
      (endObject level outer).map cursorOf := by
  cases outer with
  | nil => rfl
  | cons parent outer =>
      simp only [endObject]
      cases parent.attach (.object level.object) level.nameSpan <;> rfl

theorem item?_eq {source : Text} (short : source.byteSize < UInt32.size) (reader : Reader κ)
    (level : Level κ) (outer : List (Level κ)) {token : Token} (member : token ∈ scan source) :
    item? reader level outer token (outer.length + 1) =
      some ((reader.itemStep level outer token).map cursorOf) := by
  cases kind : token.kind with
  | closeBrace =>
      simp only [item?, itemStep, kind, less?, Option.map_some, endObject_eq]
  | objectKeyword =>
      simp only [item?, itemStep, kind]
      exact congrArg some (beginObject_eq reader none (level :: outer) token)
  | pragma =>
      simp only [item?, itemStep, kind, pragma?_eq short member, Option.map_some]
      cases readPragma token <;> rfl
  | _ =>
      simp only [item?, itemStep, kind]
      rfl

theorem first?_eq {source : Text} (short : source.byteSize < UInt32.size) (reader : Reader κ)
    (pragma : Option SourceTable) {token : Token} (member : token ∈ scan source) :
    first? reader pragma token 0 = some ((reader.startStep pragma token).map cursorOf) := by
  cases kind : token.kind with
  | pragma =>
      cases pragma with
      | none =>
          simp only [first?, startStep, kind, pragma?_eq short member, Option.map_some]
          cases readPragma token <;> rfl
      | some table =>
          simp only [first?, startStep, kind]
          rfl
  | objectKeyword =>
      simp only [first?, startStep, kind]
      exact congrArg some (beginObject_eq reader pragma [] token)
  | _ =>
      simp only [first?, startStep, kind]
      rfl

def openBlock? : State κ → Option OpenBlock
  | .loneBlock _ block | .code block _ _ => some block
  | _ => none

/-- The lexemes in front of a state end in those of the block that it is in, if any. -/
def Follows (before : List Lexeme) (state : State κ) : Prop :=
  ∀ block ∈ openBlock? state, ∃ front opening inner, before = front ++ opening :: inner ∧
    block.braceSpan = opening.token.span ∧ block.body = Lexeme.text inner

/-- A block goes on, or ends with all that stands in the source since its opening brace. -/
theorem block?_eq {source : Text} {before rest : List Lexeme} {lexeme : Lexeme}
    (row : Lexeme.all source = before ++ lexeme :: rest) {block : OpenBlock}
    (follows : ∃ front opening inner, before = front ++ opening :: inner ∧
      block.braceSpan = opening.token.span ∧ block.body = Lexeme.text inner) :
    block? source (counted block) lexeme.token =
      some ((block.step lexeme).elim (.inl ∘ counted) .inr) := by
  obtain ⟨front, opening, inner, rfl, brace, body⟩ := follows
  unfold block? OpenBlock.step
  cases kind : lexeme.token.kind with
  | closeBrace =>
      cases depth : block.depth with
      | zero =>
          have between : Lexeme.all source = front ++ opening :: (inner ++ lexeme :: rest) := by
            rw [row, List.append_assoc, List.cons_append]
          have cut := Lexeme.slice?_between between
          obtain ⟨-, -, -, -, size⟩ := Lexeme.cut_between between
          simp only [counted, depth, less?, Option.bind_some, if_true, brace, Token.span]
          rw [Text.range?_eq_slice? (by omega), cut, OpenBlock.body_push, body]
          rfl
      | succ depth =>
          simp only [counted, depth, less?, Option.bind_some, Nat.add_one_ne_zero, if_false]
          rfl
  | _ => rfl

theorem follows_of_none {lexemes : List Lexeme} {state : State κ} (outside : openBlock? state = none) :
    Follows lexemes state := by
  intro block inside
  rw [outside] at inside
  cases inside

theorem follows_of_start {before : List Lexeme} {lexeme : Lexeme} {state : State κ}
    (entered : openBlock? state = some (.start lexeme.token.span)) :
    Follows (before ++ [lexeme]) state := by
  intro block inside
  rw [entered] at inside
  cases inside
  exact ⟨before, lexeme, [], rfl, rfl, rfl⟩

/-- Inside a block its lexemes grow, and behind its closing brace no block is open. -/
theorem follows_of_blockStep {before : List Lexeme} {lexeme : Lexeme} {block : OpenBlock}
    {inside : OpenBlock → State κ} {behind : Text → State κ} {next : State κ}
    (isOpen : ∀ block, openBlock? (inside block) = some block)
    (isClosed : ∀ body, openBlock? (behind body) = none)
    (follows : Follows before (inside block))
    (reached : Sum.elim inside behind (block.step lexeme) = next) :
    Follows (before ++ [lexeme]) next := by
  subst reached
  rw [OpenBlock.step_eq]
  cases Balanced.depthStep block.depth lexeme.token.kind with
  | none => exact follows_of_none (isClosed _)
  | some depth =>
      obtain ⟨front, opening, inner, rfl, brace, body⟩ := follows block (isOpen block)
      intro grown goesOn
      rw [Sum.elim_inl, isOpen] at goesOn
      cases goesOn
      refine ⟨front, opening, inner ++ [lexeme], by simp, brace, ?_⟩
      have grownBody : ({ block.push lexeme.whole with depth } : OpenBlock).body =
          block.body ++ lexeme.whole := OpenBlock.body_push block lexeme.whole
      rw [grownBody, body]
      simp [Lexeme.text]

theorem openBlock?_of_itemStep {reader : Reader κ} {level : Level κ} {outer : List (Level κ)}
    {token : Token} {next : State κ} (stepped : reader.itemStep level outer token = .ok next) :
    openBlock? next = none := by
  unfold itemStep at stepped
  split at stepped
  · cases outer with
    | nil =>
        cases stepped
        rfl
    | cons parent outer =>
        obtain ⟨-, rfl⟩ := Grammar.endObject_eq_ok stepped
        rfl
  · cases stepped
    rfl
  · obtain ⟨-, rfl⟩ := Grammar.beginObject_eq_ok stepped
    rfl
  · obtain ⟨table, -, rfl⟩ := exists_of_map_eq_ok stepped
    rfl
  · cases stepped

theorem follows_of_startStep {reader : Reader κ} {pragma : Option SourceTable} {lexeme : Lexeme}
    {next : State κ} (stepped : reader.startStep pragma lexeme.token = .ok next)
    (before : List Lexeme) : Follows (before ++ [lexeme]) next := by
  unfold startStep at stepped
  split at stepped
  · obtain ⟨table, -, rfl⟩ := exists_of_map_eq_ok stepped
    exact follows_of_none rfl
  · cases stepped
    exact follows_of_start rfl
  · obtain ⟨-, rfl⟩ := Grammar.beginObject_eq_ok stepped
    exact follows_of_none rfl
  · cases stepped

/-- One more lexeme is one more of the block, if the state is in one. -/
theorem follows_of_step {reader : Reader κ} {before : List Lexeme} {state next : State κ}
    {lexeme : Lexeme} (follows : Follows before state)
    (stepped : reader.step state lexeme = .ok next) : Follows (before ++ [lexeme]) next := by
  cases state with
  | start pragma => exact follows_of_startStep stepped before
  | loneBlock pragma block =>
      rw [step_loneBlock] at stepped
      exact follows_of_blockStep (fun _ => rfl) (fun _ => rfl) follows (Except.ok.inj stepped)
  | keyword pragma outer =>
      obtain ⟨name, -, -, rfl⟩ := Grammar.step_keyword stepped
      exact follows_of_none rfl
  | name pragma name nameSpan outer =>
      obtain ⟨opening, -, rfl⟩ := Grammar.step_name stepped
      exact follows_of_none rfl
  | opened level outer =>
      simp only [step] at stepped
      split at stepped
      · cases stepped
        exact follows_of_none rfl
      · exact follows_of_none (openBlock?_of_itemStep stepped)
  | codeKeyword level outer =>
      obtain ⟨opening, rfl, rfl⟩ := Grammar.step_codeKeyword stepped
      exact follows_of_start rfl
  | code block level outer =>
      rw [step_code] at stepped
      exact follows_of_blockStep (fun _ => rfl) (fun _ => rfl) follows (Except.ok.inj stepped)
  | items level outer => exact follows_of_none (openBlock?_of_itemStep stepped)
  | pragma table level outer =>
      obtain ⟨keyword, -, -, rfl⟩ := Grammar.step_pragma stepped
      exact follows_of_none rfl
  | dataKeyword level outer =>
      obtain ⟨name, -, -, rfl⟩ := Grammar.step_dataKeyword stepped
      exact follows_of_none rfl
  | dataName name nameSpan level outer =>
      obtain ⟨bytes, -, mapped⟩ := exists_of_bind_eq_ok stepped
      obtain ⟨grown, -, rfl⟩ := exists_of_map_eq_ok mapped
      exact follows_of_none rfl
  | finished object => cases stepped

/-- One stored token leads where the lexeme leads. -/
theorem step?_eq {source : Text} (short : source.byteSize < UInt32.size) (reader : Reader κ)
    {before rest : List Lexeme} {lexeme : Lexeme} {state : State κ}
    (row : Lexeme.all source = before ++ lexeme :: rest) (follows : Follows before state) :
    step? reader source (cursorOf state) lexeme.token.pack =
      some ((reader.step state lexeme).map cursorOf) := by
  have listed : lexeme ∈ Lexeme.all source :=
    row ▸ List.mem_append_right before List.mem_cons_self
  have member := Lexeme.token_mem_scan listed
  have fits := fits_of_mem_scan short member
  rw [step?, fits.token?, Option.bind_some]
  cases state with
  | start pragma => exact first?_eq short reader pragma member
  | loneBlock pragma block =>
      have blockRead := block?_eq row (follows block rfl)
      simp only [cursorOf, countedState, blockRead, Option.map_some, step]
      cases block.step lexeme <;> rfl
  | keyword pragma outer =>
      simp only [cursorOf, countedState, step]
      cases kind : lexeme.token.kind with
      | stringLiteral =>
          simp only [text?_eq fits kind, Option.map_some]
          cases readText lexeme.token <;> rfl
      | _ => rfl
  | name pragma name nameSpan outer =>
      simp only [cursorOf, countedState, step]
      cases lexeme.token.kind <;> rfl
  | opened level outer =>
      have itemRead := item?_eq short reader level outer member
      simp only [cursorOf, countedState, step, State.stage, Grammar.Stage.levels] at itemRead ⊢
      cases lexeme.token.kind with
      | codeKeyword => rfl
      | _ => exact itemRead
  | codeKeyword level outer =>
      simp only [cursorOf, countedState, step]
      cases lexeme.token.kind <;> rfl
  | code block level outer =>
      have blockRead := block?_eq row (follows block rfl)
      simp only [cursorOf, countedState, blockRead, Option.map_some, step]
      cases block.step lexeme <;> rfl
  | items level outer => exact item?_eq short reader level outer member
  | pragma table level outer =>
      simp only [cursorOf, countedState, step]
      cases lexeme.token.kind with
      | objectKeyword =>
          exact congrArg some (beginObject_eq reader (some table) (level :: outer) lexeme.token)
      | _ => rfl
  | dataKeyword level outer =>
      simp only [cursorOf, countedState, step]
      cases kind : lexeme.token.kind with
      | stringLiteral =>
          simp only [text?_eq fits kind, Option.map_some]
          cases readText lexeme.token <;> rfl
      | _ => rfl
  | dataName name nameSpan level outer =>
      simp only [cursorOf, countedState, step, bytes?_eq fits, Option.map_some]
      cases readBytes lexeme.token with
      | error error => rfl
      | ok bytes =>
          simp only [Except.bind]
          cases level.attach (.data ⟨name, bytes⟩) nameSpan <;> rfl
  | finished object => rfl

theorem finish_countedState (size : Nat) (state : State κ) :
    finish size (countedState state) = finish size state := by
  cases state <;> rfl

/-- The rest of the stored tokens leads where the rest of the lexemes leads. -/
theorem resume?_eq {source : Text} (short : source.byteSize < UInt32.size) (reader : Reader κ)
    {before rest : List Lexeme} {state : State κ} (row : Lexeme.all source = before ++ rest)
    (follows : Follows before state) :
    resume? reader source (cursorOf state) ((rest.map Lexeme.token).map pack) =
      some (reader.resume source.byteSize state rest) := by
  induction rest generalizing before state with
  | nil => exact congrArg some (finish_countedState source.byteSize state)
  | cons lexeme rest inductionHypothesis =>
      rw [List.map_cons, List.map_cons, resume?, step?_eq short reader row follows, resume_cons]
      cases stepped : reader.step state lexeme with
      | error error => rfl
      | ok next =>
          have nextRow : Lexeme.all source = (before ++ [lexeme]) ++ rest := by
            rw [row, List.append_assoc, List.singleton_append]
          exact inductionHypothesis nextRow (follows_of_step follows stepped)

theorem read?_eq {source : Text} (short : source.byteSize < UInt32.size) (reader : Reader κ) :
    read? reader source = some (reader.read source) := by
  have atStart : Follows [] (.start none : State κ) := follows_of_none rfl
  have whole := resume?_eq short reader (List.nil_append (Lexeme.all source)).symm atStart
  rw [Lexeme.tokens_all] at whole
  exact whole

end YulTree.Ranged

namespace YulTree

/-! ## Places of errors -/

namespace Text

/-- The place of a token, or the end of the source. -/
def IsErrorPlace (source : Text) (place : Span) : Prop :=
  (∃ token ∈ Token.scan source, place = token.span) ∨ place = .at source.byteSize

/-- A range lies inside a source, and is empty at its end only. -/
structure Covers (source : Text) (span : Span) : Prop where
  ordered : span.start ≤ span.stop
  inside : span.stop ≤ source.byteSize
  nonempty : span.start = span.stop → span.start = source.byteSize

end Text

namespace Reader

variable {κ : Type} {reader : Reader κ}

theorem isErrorPlace_of_read {source : Text} {error : ReadError}
    (failed : reader.read source = .error error) : source.IsErrorPlace error.span := by
  have agree : Agree (source.Counterparts source)
      (fun object tree => (object.map fun _ => ()) = tree.map fun _ => ())
      (reader.resume source.byteSize (.start none) (Lexeme.all source))
      (reader.resume source.byteSize (.start none) (Lexeme.all source)) :=
    resume_agree (fun _ _ => rfl) (.inr ⟨rfl, rfl⟩) (Lexeme.matches_of_significant rfl)
      (.start none)
  rw [← read_eq_resume, failed] at agree
  rcases agree.2 with ⟨index, token, -, listed, -, place, -⟩ | ⟨place, -⟩
  · have isSignificant := List.mem_of_getElem? listed
    exact .inl ⟨token, (Token.mem_significant_iff.mp isSignificant).1, place.symm⟩
  · exact .inr place

/-- What is marked for an error is in the source. -/
theorem covers_markedSpan {source : Text} {place : Span} (isPlace : source.IsErrorPlace place) :
    source.Covers (Report.markedSpan source place) := by
  rcases isPlace with ⟨token, member, rfl⟩ | rfl
  · have tiles := Token.tiles_scan source
    have nonempty := tiles.nonempty token member
    obtain ⟨front, back, whole, start, stop⟩ :=
      (Text.slice?_eq_some_iff (Nat.le_of_lt nonempty)).mp (tiles.cut token member)
    have inside := congrArg Text.byteSize whole
    rw [Text.byteSize_append, Text.byteSize_append] at inside
    have unchanged : Report.markedSpan source token.span = token.span :=
      if_neg (Nat.ne_of_lt nonempty)
    rw [unchanged]
    refine ⟨Nat.le_of_lt nonempty, ?_, fun empty => absurd empty (Nat.ne_of_lt nonempty)⟩
    show token.stop ≤ source.byteSize
    omega
  · have marked : Report.markedSpan source (.at source.byteSize) = .at source.byteSize := by
      simp [Report.markedSpan, Span.at]
    rw [marked]
    exact ⟨Nat.le_refl _, Nat.le_refl _, fun _ => rfl⟩

/-- The tokens of a short source fit into it, it is read without a range that is not there and
without a count below zero, and every error is shown at a token or at its end. -/
theorem read_ranged (reader : Reader κ) {source : Text} (short : source.byteSize < UInt32.size) :
    (∀ token ∈ Token.scan source, token.Fits source) ∧
      Ranged.read? reader source = some (reader.read source) ∧
      ∀ error, reader.read source = .error error →
        source.IsErrorPlace error.span ∧ source.Covers (Report.markedSpan source error.span) := by
  refine ⟨fun token member => Token.fits_of_mem_scan short member,
    Ranged.read?_eq short reader, ?_⟩
  intro error failed
  have isPlace := isErrorPlace_of_read failed
  exact ⟨isPlace, covers_markedSpan isPlace⟩

/-- Code with a character of two bytes, and a literal with an odd number of digits. -/
def oddSource : Text := "object \"A\" \x7b code \x7b é \x7d data \"d\" hex'0_' \x7d"

theorem read_ranged_odd :
    Text.byteSize oddSource < UInt32.size ∧
      Ranged.read? ReadOptions.standard.reader oddSource =
        some (.error ⟨.oddHexDigits, ⟨34, 41⟩⟩) ∧
      Report.markedSpan oddSource ⟨34, 41⟩ = ⟨34, 41⟩ ∧ oddSource.Covers ⟨34, 41⟩ := by
  have short : Text.byteSize oddSource < UInt32.size := by decide
  have failed : ReadOptions.standard.reader.read oddSource = .error ⟨.oddHexDigits, ⟨34, 41⟩⟩ := by
    apply eq_error_of_error?
    decide +kernel
  obtain ⟨-, ranged, places⟩ := read_ranged ReadOptions.standard.reader short
  rw [failed] at ranged
  exact ⟨short, ranged, rfl, (places _ failed).2⟩

end Reader

end YulTree

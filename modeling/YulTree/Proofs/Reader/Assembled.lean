import YulTree.Proofs.Object.Assembled
import YulTree.Proofs.Reader.Soundness

/-!
# Assembled while reading

The reader gives a tree its nodes by attaching them, so every level of what it reads is assembled
(`allAssembled_of_read`).  The invariant of a run is that all open objects are assembled.
-/

namespace YulTree.Reader

variable {κ : Type} {reader : Reader κ}

def LevelsAssembled (levels : List (Level κ)) : Prop :=
  ∀ level ∈ levels, level.object.AllAssembled

def State.AllAssembled : State κ → Prop
  | .start _ | .loneBlock _ _ => True
  | .keyword _ outer | .name _ _ _ outer => LevelsAssembled outer
  | .opened level outer | .codeKeyword level outer | .code _ level outer
  | .items level outer | .pragma _ level outer | .dataKeyword level outer
  | .dataName _ _ level outer => level.object.AllAssembled ∧ LevelsAssembled outer
  | .finished object => object.AllAssembled

theorem allAssembled_setPragma {object : Object κ} (all : object.AllAssembled)
    (pragma : Option SourceTable) : (object.setPragma pragma).AllAssembled := by
  cases pragma with
  | none => exact all
  | some table => exact all.setDebug ⟨some table⟩

theorem allAssembled_endObject {level : Level κ} {outer : List (Level κ)} {next : State κ}
    (innermost : level.object.AllAssembled) (others : LevelsAssembled outer)
    (ended : endObject level outer = .ok next) : next.AllAssembled := by
  cases outer with
  | nil =>
      cases ended
      exact innermost
  | cons parent outer =>
      obtain ⟨parentAssembled, others⟩ := List.forall_mem_cons.mp others
      obtain ⟨attached, rfl⟩ := Grammar.endObject_eq_ok ended
      have grownAssembled : (parent.object.grow (.object level.object)).AllAssembled := by
        apply parentAssembled.attach _ attached
        intro nested same
        cases same
        exact innermost
      exact ⟨grownAssembled, others⟩

theorem allAssembled_itemStep {level : Level κ} {outer : List (Level κ)} {token : Token}
    {next : State κ} (innermost : level.object.AllAssembled) (others : LevelsAssembled outer)
    (stepped : reader.itemStep level outer token = .ok next) : next.AllAssembled := by
  unfold itemStep at stepped
  split at stepped
  · exact allAssembled_endObject innermost others stepped
  · cases stepped
    exact ⟨innermost, others⟩
  · obtain ⟨-, rfl⟩ := Grammar.beginObject_eq_ok stepped
    exact List.forall_mem_cons.mpr ⟨innermost, others⟩
  · obtain ⟨table, -, rfl⟩ := exists_of_map_eq_ok stepped
    exact ⟨innermost, others⟩
  · cases stepped

theorem allAssembled_startStep {pragma : Option SourceTable} {token : Token} {next : State κ}
    (stepped : reader.startStep pragma token = .ok next) : next.AllAssembled := by
  unfold startStep at stepped
  split at stepped
  · obtain ⟨table, -, rfl⟩ := exists_of_map_eq_ok stepped
    trivial
  · cases stepped
    trivial
  · obtain ⟨-, rfl⟩ := Grammar.beginObject_eq_ok stepped
    intro level member
    cases member
  · cases stepped

/-- One more lexeme leaves all objects of the state assembled. -/
theorem allAssembled_step {state next : State κ} {lexeme : Lexeme} (all : state.AllAssembled)
    (stepped : reader.step state lexeme = .ok next) : next.AllAssembled := by
  cases state with
  | start pragma => exact allAssembled_startStep stepped
  | loneBlock pragma block =>
      simp only [step] at stepped
      split at stepped
      · cases stepped
        trivial
      · next body closed =>
          cases stepped
          have unnamed : (Object.unnamed : Object κ).AllAssembled := .new []
          exact allAssembled_setPragma (unnamed.setCode (reader.payload body) none) pragma
  | keyword pragma outer =>
      obtain ⟨name, -, -, rfl⟩ := Grammar.step_keyword stepped
      exact all
  | name pragma name nameSpan outer =>
      obtain ⟨opening, -, rfl⟩ := Grammar.step_name stepped
      exact ⟨allAssembled_setPragma (.new name) pragma, all⟩
  | opened level outer =>
      simp only [step] at stepped
      split at stepped
      · cases stepped
        exact all
      · exact allAssembled_itemStep all.1 all.2 stepped
  | codeKeyword level outer =>
      obtain ⟨opening, -, rfl⟩ := Grammar.step_codeKeyword stepped
      exact all
  | code block level outer =>
      simp only [step] at stepped
      split at stepped
      · cases stepped
        exact all
      · next body closed =>
          cases stepped
          exact ⟨all.1.setCode (reader.payload body) none, all.2⟩
  | items level outer => exact allAssembled_itemStep all.1 all.2 stepped
  | pragma table level outer =>
      obtain ⟨keyword, -, -, rfl⟩ := Grammar.step_pragma stepped
      exact List.forall_mem_cons.mpr all
  | dataKeyword level outer =>
      obtain ⟨name, -, -, rfl⟩ := Grammar.step_dataKeyword stepped
      exact all
  | dataName name nameSpan level outer =>
      obtain ⟨bytes, -, mapped⟩ := exists_of_bind_eq_ok stepped
      obtain ⟨grown, attached, rfl⟩ := exists_of_map_eq_ok mapped
      obtain ⟨attachedObject, rfl⟩ := Grammar.Level.attach_eq_ok attached
      have grownAssembled : (level.object.grow (.data ⟨name, bytes⟩)).AllAssembled := by
        apply all.1.attach _ attachedObject
        intro nested same
        cases same
      exact ⟨grownAssembled, all.2⟩
  | finished object => cases stepped

/-- What is read from a state on is assembled, if the objects of the state are. -/
theorem allAssembled_resume {size : Nat} {lexemes : List Lexeme} {state : State κ}
    {object : Object κ} (all : state.AllAssembled)
    (read : reader.resume size state lexemes = .ok object) : object.AllAssembled := by
  induction lexemes generalizing state with
  | nil =>
      rw [resume_nil] at read
      cases state with
      | finished done =>
          cases read
          exact all
      | _ => cases read
  | cons lexeme rest inductionHypothesis =>
      obtain ⟨next, stepped, restRead⟩ := exists_step_of_resume read
      exact inductionHypothesis (allAssembled_step all stepped) restRead

/-- Every object of a tree that was read is assembled. -/
theorem allAssembled_of_read {source : Text} {object : Object κ}
    (read : reader.read source = .ok object) : object.AllAssembled := by
  rw [read_eq_resume] at read
  have nothingHeld : (State.start none : State κ).AllAssembled := trivial
  exact allAssembled_resume nothingHeld read

end YulTree.Reader

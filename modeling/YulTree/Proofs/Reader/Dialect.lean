import YulTree.Proofs.Object.Agreement
import YulTree.Proofs.Object.Inheritance
import YulTree.Proofs.Reader.Layout

/-!
# Dialects

A reader makes payloads from the bodies of code, and never looks at them.  So it does not matter
whether a payload is changed when it is made or when all has been read, and what is no tree for the
one payload is none for the other (`read_map`).  The dialect that sources are read with is such a
change: it marks all code, and that is all it does (`read_dialect`).
-/

namespace YulTree

namespace Object

section

variable {κ μ ν : Type}

mutual

theorem map_map (f : κ → μ) (g : μ → ν) : ∀ object : Object κ,
    (object.map f).map g = object.map fun payload => g (f payload)
  | { name, code, analysis, debug, slot, children } => by
      rw [map, map, map, Option.map_map, mapAll_mapAll f g children]
      rfl

theorem mapAll_mapAll (f : κ → μ) (g : μ → ν) : ∀ children : List (Node κ),
    mapAll g (mapAll f children) = mapAll (fun payload => g (f payload)) children
  | [] => rfl
  | .data entry :: rest => congrArg (Node.data entry :: ·) (mapAll_mapAll f g rest)
  | .object nested :: rest =>
      congrArg₂ (Node.object · :: ·) (map_map f g nested) (mapAll_mapAll f g rest)

end

theorem object?_map (f : κ → μ) (node : Node κ) :
    (node.map f).object? = node.object?.map (map f) := by
  cases node <;> rfl

theorem childAt?_map (f : κ → μ) (object : Object κ) (slot : Nat) :
    (object.map f).childAt? slot = (object.childAt? slot).map (Node.map f) := by
  rw [childAt?, children_map, List.getElem?_map, childAt?]

/-- Each payload stays at its path. -/
theorem codeAt?_map (f : κ → μ) (object : Object κ) (path : List Nat) :
    (object.map f).codeAt? path = (object.codeAt? path).map f := by
  induction path generalizing object with
  | nil =>
      cases object
      rfl
  | cons slot path inductionHypothesis =>
      have nested : ((object.map f).childAt? slot).bind Node.object? =
          ((object.childAt? slot).bind Node.object?).map (map f) := by
        rw [childAt?_map, Option.bind_map, Option.map_bind]
        congr 1
        funext node
        exact object?_map f node
      rw [codeAt?_cons_eq_bind, codeAt?_cons_eq_bind, nested, Option.bind_map, Option.map_bind]
      congr 1
      funext below
      exact inductionHypothesis below

end

mutual

/-- Payloads with the same content make trees that agree. -/
theorem agrees_map {κ : Type} {f g : κ → Payload}
    (same : ∀ payload, (f payload).content = (g payload).content) : ∀ object : Object κ,
    (object.map f).Agrees (object.map g)
  | { name, code, analysis, debug, slot, children } => by
      have sameCode : (code.map f).map Payload.content = (code.map g).map Payload.content := by
        rw [Option.map_map, Option.map_map]
        congr 1
        funext payload
        exact same payload
      exact .intro rfl sameCode rfl (agreesAll_mapAll same children)

theorem agreesAll_mapAll {κ : Type} {f g : κ → Payload}
    (same : ∀ payload, (f payload).content = (g payload).content) :
    ∀ children : List (Node κ), AgreesAll (mapAll f children) (mapAll g children)
  | [] => .nil
  | .data entry :: rest => .data entry (agreesAll_mapAll same rest)
  | .object nested :: rest => .object (agrees_map same nested) (agreesAll_mapAll same rest)

end

end Object

namespace Reader

variable {κ μ : Type} (f : κ → μ)

/-! ## Readers with other payloads -/

/-- The reader that changes each payload when it makes it. -/
def map (reader : Reader κ) : Reader μ :=
  ⟨reader.limit, fun body => f (reader.payload body)⟩

def Level.map (level : Level κ) : Level μ :=
  ⟨level.object.map f, level.nameSpan, level.braceSpan⟩

def State.map : State κ → State μ
  | .start listed => .start listed
  | .loneBlock listed block => .loneBlock listed block
  | .keyword listed outer => .keyword listed (outer.map (Level.map f))
  | .name listed called nameSpan outer => .name listed called nameSpan (outer.map (Level.map f))
  | .opened level outer => .opened (level.map f) (outer.map (Level.map f))
  | .codeKeyword level outer => .codeKeyword (level.map f) (outer.map (Level.map f))
  | .code block level outer => .code block (level.map f) (outer.map (Level.map f))
  | .items level outer => .items (level.map f) (outer.map (Level.map f))
  | .pragma table level outer => .pragma table (level.map f) (outer.map (Level.map f))
  | .dataKeyword level outer => .dataKeyword (level.map f) (outer.map (Level.map f))
  | .dataName called nameSpan level outer =>
      .dataName called nameSpan (level.map f) (outer.map (Level.map f))
  | .finished object => .finished (object.map f)

variable (reader : Reader κ) (level : Level κ) (outer : List (Level κ)) (token : Token)

theorem attach_map (node : Node κ) (nameSpan : Span) :
    (level.map f).attach (node.map f) nameSpan =
      (level.attach node nameSpan).map (Level.map f) := by
  unfold Level.attach
  rw [Level.map, ← Object.attach_map]
  cases level.object.attach node <;> rfl

/-- An attached child leads back to the items. -/
theorem items_attach_map (node : Node κ) (nameSpan : Span) :
    ((level.map f).attach (node.map f) nameSpan).map (.items · (outer.map (Level.map f))) =
      ((level.attach node nameSpan).map (.items · outer)).map (State.map f) := by
  rw [attach_map]
  cases level.attach node nameSpan <;> rfl

theorem beginObject_map (pragma : Option SourceTable) :
    (reader.map f).beginObject pragma (outer.map (Level.map f)) token =
      (reader.beginObject pragma outer token).map (State.map f) := by
  unfold beginObject
  rw [List.length_map, map]
  by_cases full : reader.limit ≤ outer.length
  · rw [if_pos full, if_pos full]
    rfl
  · rw [if_neg full, if_neg full]
    rfl

theorem endObject_map :
    endObject (level.map f) (outer.map (Level.map f)) =
      (endObject level outer).map (State.map f) := by
  cases outer with
  | nil => rfl
  | cons parent outer => exact items_attach_map f parent outer (.object level.object) level.nameSpan

theorem itemStep_map :
    (reader.map f).itemStep (level.map f) (outer.map (Level.map f)) token =
      (reader.itemStep level outer token).map (State.map f) := by
  unfold itemStep
  cases token.kind with
  | closeBrace => exact endObject_map f level outer
  | objectKeyword => exact beginObject_map f reader (level :: outer) token none
  | pragma => cases readPragma token <;> rfl
  | _ => rfl

theorem startStep_map (pragma : Option SourceTable) :
    (reader.map f).startStep pragma token = (reader.startStep pragma token).map (State.map f) := by
  unfold startStep
  cases token.kind with
  | pragma =>
      cases pragma with
      | none => cases readPragma token <;> rfl
      | some table => rfl
  | objectKeyword => exact beginObject_map f reader [] token pragma
  | _ => rfl

/-- One token means the same whatever becomes of payloads. -/
theorem step_map (state : State κ) (lexeme : Lexeme) :
    (reader.map f).step (state.map f) lexeme = (reader.step state lexeme).map (State.map f) := by
  cases state with
  | start pragma => exact startStep_map f reader lexeme.token pragma
  | loneBlock pragma block =>
      simp only [step, State.map]
      cases block.step lexeme with
      | inl grown => rfl
      | inr body =>
          simp only [Except.map, State.map, Object.setPragma_map, Object.setCode_map]
          rfl
  | keyword pragma outer =>
      simp only [step, State.map]
      cases lexeme.token.kind with
      | stringLiteral => cases readText lexeme.token <;> rfl
      | _ => rfl
  | name pragma name nameSpan outer =>
      simp only [step, State.map]
      cases lexeme.token.kind with
      | openBrace => cases pragma <;> rfl
      | _ => rfl
  | opened level outer =>
      simp only [step, State.map]
      cases lexeme.token.kind with
      | codeKeyword => rfl
      | _ => exact itemStep_map f reader level outer lexeme.token
  | codeKeyword level outer =>
      simp only [step, State.map]
      cases lexeme.token.kind <;> rfl
  | code block level outer =>
      simp only [step, State.map]
      cases block.step lexeme with
      | inl grown => rfl
      | inr body =>
          simp only [Except.map, State.map, Level.map, Object.setCode_map]
          rfl
  | items level outer => exact itemStep_map f reader level outer lexeme.token
  | pragma table level outer =>
      simp only [step, State.map]
      cases lexeme.token.kind with
      | objectKeyword =>
          exact beginObject_map f reader (level :: outer) lexeme.token (some table)
      | _ => rfl
  | dataKeyword level outer =>
      simp only [step, State.map]
      cases lexeme.token.kind with
      | stringLiteral => cases readText lexeme.token <;> rfl
      | _ => rfl
  | dataName name nameSpan level outer =>
      simp only [step, State.map]
      cases readBytes lexeme.token with
      | error error => rfl
      | ok bytes => exact items_attach_map f level outer (.data ⟨name, bytes⟩) nameSpan
  | finished object => rfl

theorem finish_map (size : Nat) (state : State κ) :
    finish size (state.map f) = (finish size state).map (Object.map f) := by
  cases state <;> rfl

theorem resume_map (size : Nat) (state : State κ) (lexemes : List Lexeme) :
    (reader.map f).resume size (state.map f) lexemes =
      (reader.resume size state lexemes).map (Object.map f) := by
  induction lexemes generalizing state with
  | nil => exact finish_map f size state
  | cons lexeme rest inductionHypothesis =>
      rw [resume_cons, resume_cons, step_map]
      cases reader.step state lexeme with
      | error error => rfl
      | ok next => exact inductionHypothesis next

/-- Payloads that are changed when they are made are those that are changed in the end. -/
theorem read_map (source : Text) :
    (reader.map f).read source = (reader.read source).map (Object.map f) :=
  reader.resume_map f source.byteSize (.start none) (Lexeme.all source)

end Reader

def Payload.marked (dialect : Option Dialect) (content : Payload.Content) : Payload :=
  ⟨content, dialect⟩

/-- The reader of code that is not marked yet. -/
def Reader.plain (limit : Nat) : Reader Payload.Content :=
  ⟨limit, fun body => .block (.ofBody body)⟩

namespace Object

/-- A tree can be read first, and its code be marked afterwards. -/
theorem read_eq_map (dialect : Option Dialect) (limit : Nat) (source : Text) :
    Object.read ⟨dialect, limit⟩ source =
      ((Reader.plain limit).read source).map (Object.map (Payload.marked dialect)) :=
  (Reader.plain limit).read_map (Payload.marked dialect) source

/-- Trees that are the same but for the dialect, which is marked on all code of the first and on
none of the second. -/
structure DiffersInDialect (dialect : Dialect) (first second : Object Payload) : Prop where
  /-- All but the dialects is the same: names, nodes in their order and their slots, byte strings,
  tables of sources, and lines of code. -/
  content : first.map Payload.content = second.map Payload.content
  json : first.toJson = second.toJson
  print : ∀ selection sources, first.print selection sources = second.print selection sources
  display : first.display = second.display
  marked : ∀ path payload, first.codeAt? path = some payload →
    Code.dialect? payload = some dialect
  unmarked : ∀ path payload, second.codeAt? path = some payload → Code.dialect? payload = none

theorem dialect_of_marked {tree : Object Payload.Content} {dialect : Option Dialect}
    {path : List Nat} {payload : Payload}
    (coded : (tree.map (Payload.marked dialect)).codeAt? path = some payload) :
    Code.dialect? payload = dialect := by
  rw [codeAt?_map] at coded
  obtain ⟨content, -, isMarked⟩ := Option.map_eq_some_iff.mp coded
  rw [← isMarked]
  rfl

theorem differsInDialect_marked (dialect : Dialect) (tree : Object Payload.Content) :
    DiffersInDialect dialect (tree.map (Payload.marked (some dialect)))
      (tree.map (Payload.marked none)) := by
  have sameContent : ∀ content, (Payload.marked (some dialect) content).content =
      (Payload.marked none content).content := fun _ => rfl
  have agrees := agrees_map sameContent tree
  constructor
  · rw [map_map, map_map]
    rfl
  · exact toJson_of_agrees agrees
  · exact print_of_agrees agrees
  · exact print_of_agrees agrees Selection.standard SourceProvider.absent
  · intro path payload coded
    exact dialect_of_marked coded
  · intro path payload coded
    exact dialect_of_marked coded

/-- With a dialect and without one, sources are read as trees that are the same but for the
dialect, or show the same fault at the same place. -/
theorem read_dialect (limit : Nat) (dialect : Dialect) (source : Text) :
    Reader.Agree Eq (DiffersInDialect dialect) (Object.read ⟨some dialect, limit⟩ source)
      (Object.read ⟨none, limit⟩ source) := by
  rw [read_eq_map, read_eq_map]
  cases (Reader.plain limit).read source with
  | error error => exact ⟨rfl, rfl⟩
  | ok tree => exact differsInDialect_marked dialect tree

/-- A code block that is not inside an object is marked as well. -/
example :
    ((Object.read ⟨some ⟨"evm"⟩, 1⟩ "\x7b stop() \x7d").toOption.bind fun object =>
        object.codeAt? []) =
      some ⟨.block ⟨["stop()"]⟩, some ⟨"evm"⟩⟩ := by
  decide +kernel

end Object

end YulTree

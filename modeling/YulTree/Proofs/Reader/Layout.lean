import Mathlib.Data.List.Forall2
import YulTree.Proofs.Reader.Resume

/-!
# Layout

Blank space and comments between tokens make no difference to a reader.  Two sources with the same
tokens are read in step: the states that they lead to differ in places and in the bodies of code
only (`step_agree`), and so do the results (`read_layout`).
-/

namespace YulTree

variable {κ μ : Type}

def Node.map (f : κ → μ) : Node κ → Node μ
  | .data entry => .data entry
  | .object nested => .object (nested.map f)

namespace Object

theorem mapAll_eq_map (f : κ → μ) (children : List (Node κ)) :
    mapAll f children = children.map (Node.map f) := by
  induction children with
  | nil => rfl
  | cons node rest inductionHypothesis => cases node <;> simp [mapAll, Node.map, inductionHypothesis]

theorem name_map (f : κ → μ) (object : Object κ) : (object.map f).name = object.name := by
  cases object
  rfl

theorem children_map (f : κ → μ) (object : Object κ) :
    (object.map f).children = object.children.map (Node.map f) := by
  cases object
  exact mapAll_eq_map f _

theorem setCode_map (f : κ → μ) (object : Object κ) (code : κ) (analysis : Option Text) :
    (object.setCode code analysis).map f = (object.map f).setCode (f code) analysis := by
  cases object
  rfl

theorem setPragma_map (f : κ → μ) (object : Object κ) (pragma : Option SourceTable) :
    (object.setPragma pragma).map f = (object.map f).setPragma pragma := by
  cases object
  cases pragma <;> rfl

theorem name_nodeMap (f : κ → μ) (node : Node κ) : (node.map f).name = node.name := by
  cases node with
  | data entry => rfl
  | object nested => exact name_map f nested

theorem childNames_map (f : κ → μ) (object : Object κ) :
    (object.map f).childNames = object.childNames := by
  rw [childNames, children_map, List.map_map, childNames]
  exact List.map_congr_left fun node _ => name_nodeMap f node

theorem inSlot_map (f : κ → μ) (slot : Nat) (node : Node κ) :
    (node.inSlot slot).map f = (node.map f).inSlot slot := by
  cases node with
  | data entry => rfl
  | object nested =>
      cases nested
      rfl

/-- Whether a child can be attached does not depend on code. -/
theorem attach_map (f : κ → μ) (object : Object κ) (node : Node κ) :
    (object.attach node).map (map f) = (object.map f).attach (node.map f) := by
  unfold attach
  rw [name_nodeMap, name_map, childNames_map, children_map, List.length_map, ← inSlot_map]
  by_cases nameless : node.name = []
  · rw [if_pos nameless, if_pos nameless]
    rfl
  · by_cases shadows : node.name = object.name
    · simp only [if_neg nameless, if_pos shadows]
      rfl
    · by_cases used : object.childNames.contains node.name = true
      · simp only [if_neg nameless, if_neg shadows, if_pos used]
        rfl
      · simp only [if_neg nameless, if_neg shadows, if_neg used]
        cases object
        simp [Except.map, map, mapAll_eq_map]

end Object

namespace Reader

section

variable {α β γ δ : Type}

/-- Results that agree: values that do, or the same fault at places that do. -/
def Agree (places : Span → Span → Prop) (values : α → β → Prop) :
    Except ReadError α → Except ReadError β → Prop
  | .ok value, .ok other => values value other
  | .error error, .error other => error.fault = other.fault ∧ places error.span other.span
  | _, _ => False

variable {places : Span → Span → Prop} {values : α → β → Prop} {images : γ → δ → Prop}

theorem Agree.cases {first : Except ReadError α} {second : Except ReadError β}
    (agree : Agree places values first second) :
    (∃ value other, first = .ok value ∧ second = .ok other ∧ values value other) ∨
      ∃ error other, first = .error error ∧ second = .error other ∧
        error.fault = other.fault ∧ places error.span other.span := by
  cases first with
  | error error =>
      cases second with
      | error other => exact .inr ⟨error, other, rfl, rfl, agree⟩
      | ok other => cases agree
  | ok value =>
      cases second with
      | error other => cases agree
      | ok other => exact .inl ⟨value, other, rfl, rfl, agree⟩

theorem Agree.bind {first : Except ReadError α} {second : Except ReadError β}
    {f : α → Except ReadError γ} {g : β → Except ReadError δ}
    (agree : Agree places values first second)
    (kept : ∀ value other, values value other → Agree places images (f value) (g other)) :
    Agree places images (first.bind f) (second.bind g) := by
  rcases agree.cases with ⟨value, other, rfl, rfl, related⟩ | ⟨error, other, rfl, rfl, same⟩
  · exact kept value other related
  · exact same

theorem Agree.map {first : Except ReadError α} {second : Except ReadError β} {f : α → γ}
    {g : β → δ} (agree : Agree places values first second)
    (kept : ∀ value other, values value other → images (f value) (g other)) :
    Agree places images (first.map f) (second.map g) := by
  rcases agree.cases with ⟨value, other, rfl, rfl, related⟩ | ⟨error, other, rfl, rfl, same⟩
  · exact kept value other related
  · exact same

end

/-- Tokens that differ in their places only. -/
structure Matches (places : Span → Span → Prop) (first second : Token) : Prop where
  kind : first.kind = second.kind
  text : first.text = second.text
  place : places first.span second.span

section

variable {places : Span → Span → Prop} {first second : Token}

theorem unexpected_agree {α β : Type} {values : α → β → Prop} (same : Matches places first second)
    (expected : Expected) :
    Agree places values (unexpected expected first) (unexpected expected second) := by
  refine ⟨?_, same.place⟩
  rw [same.kind]

theorem readText_agree (same : Matches places first second) :
    Agree places Eq (readText first) (readText second) := by
  unfold readText
  rw [same.text]
  cases Text.Quoted.decodeLiteral second.text with
  | error escape => exact ⟨rfl, same.place⟩
  | ok bytes =>
      cases decoded : Text.ofBytes? bytes with
      | none =>
          simp only [decoded]
          exact ⟨rfl, same.place⟩
      | some text =>
          simp only [decoded]
          exact rfl

theorem readBytes_agree (same : Matches places first second) :
    Agree places Eq (readBytes first) (readBytes second) := by
  have refused : Agree places (Eq (α := Bytes)) (unexpected .literal first)
      (unexpected .literal second) := unexpected_agree same .literal
  unfold readBytes
  rw [same.text, ← same.kind]
  cases first.kind with
  | hexLiteral =>
      cases Bytes.ofHex? (hexDigits second.text) with
      | none => exact ⟨rfl, same.place⟩
      | some bytes => exact rfl
  | stringLiteral =>
      cases Text.Quoted.decodeLiteral second.text with
      | error escape => exact ⟨rfl, same.place⟩
      | ok bytes => exact rfl
  | _ => exact refused

theorem readPragma_agree (same : Matches places first second) :
    Agree places Eq (readPragma first) (readPragma second) := by
  unfold readPragma
  rw [same.text]
  cases SourceTable.ofPayload ((pragmaPayload? second.text).getD []) with
  | error fault => exact ⟨rfl, same.place⟩
  | ok table => exact rfl

end

section

variable (shape : κ → μ) (places : Span → Span → Prop)

/-- Levels that differ in places and in code only. -/
structure Level.Agrees (first second : Level κ) : Prop where
  object : first.object.map shape = second.object.map shape
  name : places first.nameSpan second.nameSpan
  brace : places first.braceSpan second.braceSpan

structure OpenBlock.Agrees (first second : OpenBlock) : Prop where
  brace : places first.braceSpan second.braceSpan
  depth : first.depth = second.depth

abbrev LevelsAgree : List (Level κ) → List (Level κ) → Prop :=
  List.Forall₂ (Level.Agrees shape places)

/-- States that differ in places and in code only. -/
inductive State.Agrees : State κ → State κ → Prop where
  | start (pragma : Option SourceTable) : Agrees (.start pragma) (.start pragma)
  | loneBlock (pragma : Option SourceTable) {block other : OpenBlock} :
      block.Agrees places other → Agrees (.loneBlock pragma block) (.loneBlock pragma other)
  | keyword (pragma : Option SourceTable) {outer others : List (Level κ)} :
      LevelsAgree shape places outer others →
      Agrees (.keyword pragma outer) (.keyword pragma others)
  | name (pragma : Option SourceTable) (name : Text) {span place : Span}
      {outer others : List (Level κ)} :
      places span place → LevelsAgree shape places outer others →
      Agrees (.name pragma name span outer) (.name pragma name place others)
  | opened {level other : Level κ} {outer others : List (Level κ)} :
      LevelsAgree shape places (level :: outer) (other :: others) →
      Agrees (.opened level outer) (.opened other others)
  | codeKeyword {level other : Level κ} {outer others : List (Level κ)} :
      LevelsAgree shape places (level :: outer) (other :: others) →
      Agrees (.codeKeyword level outer) (.codeKeyword other others)
  | code {block body : OpenBlock} {level other : Level κ} {outer others : List (Level κ)} :
      block.Agrees places body → LevelsAgree shape places (level :: outer) (other :: others) →
      Agrees (.code block level outer) (.code body other others)
  | items {level other : Level κ} {outer others : List (Level κ)} :
      LevelsAgree shape places (level :: outer) (other :: others) →
      Agrees (.items level outer) (.items other others)
  | pragma (table : SourceTable) {level other : Level κ} {outer others : List (Level κ)} :
      LevelsAgree shape places (level :: outer) (other :: others) →
      Agrees (.pragma table level outer) (.pragma table other others)
  | dataKeyword {level other : Level κ} {outer others : List (Level κ)} :
      LevelsAgree shape places (level :: outer) (other :: others) →
      Agrees (.dataKeyword level outer) (.dataKeyword other others)
  | dataName (name : Text) {span place : Span} {level other : Level κ}
      {outer others : List (Level κ)} :
      places span place → LevelsAgree shape places (level :: outer) (other :: others) →
      Agrees (.dataName name span level outer) (.dataName name place other others)
  | finished {object other : Object κ} :
      object.map shape = other.map shape → Agrees (.finished object) (.finished other)

end

section

variable {shape : κ → μ} {places : Span → Span → Prop} {reader : Reader κ} {level other : Level κ}
  {outer others : List (Level κ)} {first second : Token}

theorem attach_agree {node child : Node κ} {span place : Span}
    (levels : level.Agrees shape places other) (sameNode : node.map shape = child.map shape)
    (spans : places span place) :
    Agree places (Level.Agrees shape places) (level.attach node span)
      (other.attach child place) := by
  have same : (level.object.attach node).map (Object.map shape) =
      (other.object.attach child).map (Object.map shape) := by
    rw [Object.attach_map, Object.attach_map, levels.object, sameNode]
  unfold Level.attach
  cases attached : level.object.attach node with
  | error error =>
      cases otherAttached : other.object.attach child with
      | error fault =>
          rw [attached, otherAttached] at same
          cases same
          exact ⟨rfl, spans⟩
      | ok object =>
          rw [attached, otherAttached] at same
          cases same
  | ok object =>
      cases otherAttached : other.object.attach child with
      | error fault =>
          rw [attached, otherAttached] at same
          cases same
      | ok grown =>
          rw [attached, otherAttached] at same
          exact ⟨Except.ok.inj same, levels.name, levels.brace⟩

theorem beginObject_agree (same : Matches places first second) (pragma : Option SourceTable)
    (levels : LevelsAgree shape places outer others) :
    Agree places (State.Agrees shape places) (beginObject reader pragma outer first)
      (beginObject reader pragma others second) := by
  unfold beginObject
  rw [levels.length_eq]
  by_cases full : reader.limit ≤ others.length
  · rw [if_pos full, if_pos full]
    exact ⟨rfl, same.place⟩
  · rw [if_neg full, if_neg full]
    exact .keyword pragma levels

theorem endObject_agree (levels : LevelsAgree shape places (level :: outer) (other :: others)) :
    Agree places (State.Agrees shape places) (endObject level outer) (endObject other others) := by
  obtain ⟨innermost, around⟩ := List.forall₂_cons.mp levels
  cases around with
  | nil => exact .finished innermost.object
  | cons parents around =>
      have nodes : (Node.object level.object).map shape = (Node.object other.object).map shape :=
        congrArg Node.object innermost.object
      apply (attach_agree parents nodes innermost.name).map
      intro grown larger agrees
      exact .items (.cons agrees around)

theorem itemStep_agree (same : Matches places first second)
    (levels : LevelsAgree shape places (level :: outer) (other :: others)) :
    Agree places (State.Agrees shape places) (reader.itemStep level outer first)
      (reader.itemStep other others second) := by
  have refused : Agree places (State.Agrees shape places) (unexpected .item first)
      (unexpected .item second) := unexpected_agree same .item
  unfold itemStep
  rw [← same.kind]
  cases first.kind with
  | closeBrace => exact endObject_agree levels
  | dataKeyword => exact .dataKeyword levels
  | objectKeyword => exact beginObject_agree same none levels
  | pragma =>
      apply (readPragma_agree same).map
      rintro table _ rfl
      exact .pragma table levels
  | _ => exact refused

theorem startStep_agree (same : Matches places first second) (pragma : Option SourceTable) :
    Agree places (State.Agrees (κ := κ) shape places) (reader.startStep pragma first)
      (reader.startStep pragma second) := by
  have refused : Agree places (State.Agrees shape places) (unexpected .objectOrBlock first)
      (unexpected .objectOrBlock second) := unexpected_agree same .objectOrBlock
  unfold startStep
  rw [← same.kind]
  cases first.kind with
  | pragma =>
      cases pragma with
      | none =>
          apply (readPragma_agree same).map
          rintro table _ rfl
          exact .start (some table)
      | some table => exact refused
  | openBrace => exact .loneBlock pragma ⟨same.place, rfl⟩
  | objectKeyword => exact beginObject_agree same pragma .nil
  | _ => exact refused

/-- A lexeme ends both of two blocks that agree, or none of them. -/
theorem blockStep_cases {block body : OpenBlock} {lexeme paired : Lexeme}
    (blocks : block.Agrees places body) (same : lexeme.token.kind = paired.token.kind) :
    (∃ grown larger, block.step lexeme = .inl grown ∧ body.step paired = .inl larger ∧
      grown.Agrees places larger) ∨
    (∃ text covered, block.step lexeme = .inr text ∧ body.step paired = .inr covered) := by
  rw [OpenBlock.step_eq, OpenBlock.step_eq, blocks.depth, same]
  cases Balanced.depthStep body.depth paired.token.kind with
  | none => exact .inr ⟨_, _, rfl, rfl⟩
  | some depth => exact .inl ⟨_, _, rfl, rfl, blocks.brace, rfl⟩

/-- One token takes states that agree to states that agree, or to the same fault. -/
theorem step_agree (sameShape : ∀ text covered, shape (reader.payload text) =
      shape (reader.payload covered)) {state twin : State κ} {lexeme paired : Lexeme}
    (agrees : state.Agrees shape places twin) (same : Matches places lexeme.token paired.token) :
    Agree places (State.Agrees shape places) (reader.step state lexeme)
      (reader.step twin paired) := by
  have refused : ∀ expected, Agree places (State.Agrees shape places)
      (unexpected expected lexeme.token) (unexpected expected paired.token) :=
    unexpected_agree same
  cases agrees with
  | start pragma => exact startStep_agree same pragma
  | loneBlock pragma blocks =>
      simp only [step]
      rcases blockStep_cases blocks same.kind with
        ⟨grown, larger, stepped, pairedStepped, agree⟩ | ⟨text, covered, stepped, pairedStepped⟩
      · rw [stepped, pairedStepped]
        exact .loneBlock pragma agree
      · rw [stepped, pairedStepped]
        apply State.Agrees.finished
        rw [Object.setPragma_map, Object.setPragma_map, Object.setCode_map, Object.setCode_map,
          sameShape text covered]
  | keyword pragma levels =>
      simp only [step]
      rw [← same.kind]
      cases lexeme.token.kind with
      | stringLiteral =>
          apply (readText_agree same).map
          rintro name _ rfl
          exact .name pragma name same.place levels
      | _ => exact refused .objectName
  | name pragma name spans levels =>
      simp only [step]
      rw [← same.kind]
      cases lexeme.token.kind with
      | openBrace => exact .opened (.cons ⟨rfl, spans, same.place⟩ levels)
      | _ => exact refused .openBrace
  | opened levels =>
      simp only [step]
      have items : Agree places (State.Agrees shape places)
          (reader.itemStep _ _ lexeme.token) (reader.itemStep _ _ paired.token) :=
        itemStep_agree same levels
      rw [← same.kind]
      cases lexeme.token.kind with
      | codeKeyword => exact .codeKeyword levels
      | _ => exact items
  | codeKeyword levels =>
      simp only [step]
      rw [← same.kind]
      cases lexeme.token.kind with
      | openBrace => exact .code ⟨same.place, rfl⟩ levels
      | _ => exact refused .openBrace
  | code blocks levels =>
      simp only [step]
      rcases blockStep_cases blocks same.kind with
        ⟨grown, larger, stepped, pairedStepped, agree⟩ | ⟨text, covered, stepped, pairedStepped⟩
      · rw [stepped, pairedStepped]
        exact .code agree levels
      · rw [stepped, pairedStepped]
        obtain ⟨innermost, around⟩ := List.forall₂_cons.mp levels
        refine .items (.cons ⟨?_, innermost.name, innermost.brace⟩ around)
        rw [Object.setCode_map, Object.setCode_map, sameShape text covered, innermost.object]
  | items levels => exact itemStep_agree same levels
  | pragma table levels =>
      simp only [step]
      rw [← same.kind]
      cases lexeme.token.kind with
      | objectKeyword => exact beginObject_agree same (some table) levels
      | _ => exact refused .object
  | dataKeyword levels =>
      simp only [step]
      rw [← same.kind]
      cases lexeme.token.kind with
      | stringLiteral =>
          apply (readText_agree same).map
          rintro name _ rfl
          exact .dataName name same.place levels
      | _ => exact refused .dataName
  | dataName name spans levels =>
      apply (readBytes_agree same).bind
      rintro bytes _ rfl
      obtain ⟨innermost, around⟩ := List.forall₂_cons.mp levels
      apply (attach_agree innermost rfl spans).map
      intro grown larger agrees
      exact .items (.cons agrees around)
  | finished sameObject => exact refused .endOfInput

/-- The end of the input means the same in states that agree. -/
theorem finish_agree {state twin : State κ} {size length : Nat}
    (agrees : state.Agrees shape places twin) (ends : places (.at size) (.at length)) :
    Agree places (fun object tree => object.map shape = tree.map shape) (finish size state)
      (finish length twin) := by
  cases agrees with
  | start | keyword | name | codeKeyword | pragma | dataKeyword | dataName => exact ⟨rfl, ends⟩
  | loneBlock pragma blocks => exact ⟨rfl, blocks.brace⟩
  | code blocks levels => exact ⟨rfl, blocks.brace⟩
  | opened levels => exact ⟨rfl, (List.forall₂_cons.mp levels).1.brace⟩
  | items levels => exact ⟨rfl, (List.forall₂_cons.mp levels).1.brace⟩
  | finished sameObject => exact sameObject

theorem resume_agree (sameShape : ∀ text covered, shape (reader.payload text) =
      shape (reader.payload covered)) {size length : Nat} (ends : places (.at size) (.at length))
    {lexemes row : List Lexeme}
    (same : List.Forall₂ (fun lexeme paired => Matches places lexeme.token paired.token)
      lexemes row) {state twin : State κ} (agrees : state.Agrees shape places twin) :
    Agree places (fun object tree => object.map shape = tree.map shape)
      (reader.resume size state lexemes) (reader.resume length twin row) := by
  induction same generalizing state twin with
  | nil => exact finish_agree agrees ends
  | cons first rest inductionHypothesis =>
      rw [resume_cons, resume_cons]
      apply (step_agree sameShape agrees first).bind
      intro next follower nextAgrees
      exact inductionHypothesis nextAgrees

end

end Reader

/-- Places of tokens that have the same number in two sources, or the ends of both sources. -/
def Text.Counterparts (first second : Text) (place counterpart : Span) : Prop :=
  (∃ (index : Nat) (token other : Token), (Token.significant first)[index]? = some token ∧
    (Token.significant second)[index]? = some other ∧ token.span = place ∧
    other.span = counterpart) ∨
  (place = .at first.byteSize ∧ counterpart = .at second.byteSize)

theorem Token.matches_of_parts {first second : Text}
    (same : (significant first).map (fun token => (token.kind, token.text)) =
      (significant second).map fun token => (token.kind, token.text)) :
    List.Forall₂ (Reader.Matches (first.Counterparts second)) (significant first)
      (significant second) := by
  have sameLength := congrArg List.length same
  rw [List.length_map, List.length_map] at sameLength
  apply List.forall₂_of_length_eq_of_get sameLength
  intro index inFirst inSecond
  have sameParts := congrArg (fun parts => parts[index]?) same
  simp only [List.getElem?_map, List.getElem?_eq_getElem inFirst,
    List.getElem?_eq_getElem inSecond, Option.map_some, Option.some.injEq,
    Prod.mk.injEq] at sameParts
  refine ⟨sameParts.1, sameParts.2, .inl ⟨index, _, _, ?_, ?_, rfl, rfl⟩⟩
  · exact List.getElem?_eq_getElem inFirst
  · exact List.getElem?_eq_getElem inSecond

theorem Lexeme.matches_of_significant {first second : Text}
    (same : (Token.significant first).map (fun token => (token.kind, token.text)) =
      (Token.significant second).map fun token => (token.kind, token.text)) :
    List.Forall₂ (fun lexeme paired =>
        Reader.Matches (first.Counterparts second) lexeme.token paired.token)
      (Lexeme.all first) (Lexeme.all second) := by
  have tokens : List.Forall₂ (Reader.Matches (first.Counterparts second))
      ((all first).map Lexeme.token) ((all second).map Lexeme.token) := by
    rw [tokens_all, tokens_all]
    exact Token.matches_of_parts same
  exact List.forall₂_map_left_iff.mp (List.forall₂_map_right_iff.mp tokens)

/-- Two sources with the same tokens are read as trees that differ in their code only, or they
show the same fault at corresponding tokens or both at their ends. -/
theorem Object.read_layout (options : ReadOptions) {first second : Text}
    (same : (Token.significant first).map (fun token => (token.kind, token.text)) =
      (Token.significant second).map fun token => (token.kind, token.text)) :
    Reader.Agree (first.Counterparts second)
      (fun object tree => object.map Payload.dialect = tree.map Payload.dialect)
      (Object.read options first) (Object.read options second) := by
  have sameShape : ∀ text covered : Text, Payload.dialect (options.reader.payload text) =
      Payload.dialect (options.reader.payload covered) := fun _ _ => rfl
  exact Reader.resume_agree sameShape (.inr ⟨rfl, rfl⟩) (Lexeme.matches_of_significant same)
    (.start none)

/-- Blank space and a comment, and a fault at the last tokens. -/
theorem Object.read_layout_commented :
    (Token.significant "object \"A\" data").map (fun token => (token.kind, token.text)) =
        (Token.significant "object/**/\"A\"\n data").map
          (fun token => (token.kind, token.text)) ∧
      Reader.Agree (Text.Counterparts "object \"A\" data" "object/**/\"A\"\n data")
        (fun object tree => object.map Payload.dialect = tree.map Payload.dialect)
        (Object.read .standard "object \"A\" data")
        (Object.read .standard "object/**/\"A\"\n data") := by
  have same : (Token.significant "object \"A\" data").map (fun token => (token.kind, token.text)) =
      (Token.significant "object/**/\"A\"\n data").map
        (fun token => (token.kind, token.text)) := by
    decide +kernel
  exact ⟨same, Object.read_layout .standard same⟩

end YulTree

import YulTree.Proofs.Object.Built
import YulTree.Proofs.Reader.Nested
import YulTree.Proofs.Reader.Unambiguous
import YulTree.Proofs.Reader.Verdict

/-!
# The limit on nested objects

A reader with a limit fails on its account exactly where an object begins inside as many others as
the limit says, and otherwise reads what it would read with a larger one (`read_limit`).
-/

namespace YulTree

namespace Grammar

mutual

def ObjectTree.levels : ObjectTree → Nat
  | { keyword := _, name := _, opening := _, code := _, items, closing := _ } =>
      ItemTree.levelsAll items + 1

def ItemTree.levelsAll : List ItemTree → Nat
  | [] => 0
  | .data _ :: rest => ItemTree.levelsAll rest
  | .object _ nested :: rest => max nested.levels (ItemTree.levelsAll rest)

end

/-- A block that is no object's code is on no level. -/
def RootTree.levels : RootTree → Nat
  | .block _ _ => 0
  | .object _ outermost => outermost.levels

section

variable {κ : Type} (payload : Text → κ) (source : Text)

mutual

theorem ObjectTree.levels_denote : ∀ (tree : ObjectTree) (pragma : Option (Terminal .pragma))
    (slot : Option Nat), (tree.denote payload source pragma slot).levels = tree.levels
  | { keyword, name, opening, code, items, closing }, pragma, slot => by
      rw [ObjectTree.denote, Object.levels, ItemTree.levels_denoteAll items, ObjectTree.levels]

theorem ItemTree.levels_denoteAll : ∀ (items : List ItemTree) (slot : Nat),
    Object.levelsAll (ItemTree.denoteAll payload source slot items) = ItemTree.levelsAll items
  | [], slot => rfl
  | .data entry :: rest, slot => by
      rw [ItemTree.denoteAll, Object.levelsAll, ItemTree.levelsAll,
        ItemTree.levels_denoteAll rest]
  | .object pragma nested :: rest, slot => by
      rw [ItemTree.denoteAll, Object.levelsAll, ItemTree.levelsAll, nested.levels_denote,
        ItemTree.levels_denoteAll rest]

end

end

mutual

/-- Of the room for nested objects only as many levels are needed as there are. -/
theorem ObjectTree.admissible_iff : ∀ (tree : ObjectTree) {room less : Nat},
    tree.Admissible room → (tree.Admissible less ↔ tree.levels ≤ less)
  | { keyword, name, opening, code, items, closing }, room, less, admissible => by
      obtain ⟨positive, isName, namesFit, inner⟩ := admissible
      have innerIff : ItemTree.AdmissibleAll (less - 1) items ↔
          ItemTree.levelsAll items ≤ less - 1 := ItemTree.admissibleAll_iff items inner
      rw [ObjectTree.Admissible, ObjectTree.levels, innerIff]
      simp only [isName, namesFit, true_and]
      omega

theorem ItemTree.admissibleAll_iff : ∀ (items : List ItemTree) {room less : Nat},
    ItemTree.AdmissibleAll room items →
      (ItemTree.AdmissibleAll less items ↔ ItemTree.levelsAll items ≤ less)
  | [], room, less, admissible => by
      rw [ItemTree.levelsAll]
      exact iff_of_true trivial (Nat.zero_le _)
  | .data entry :: rest, room, less, admissible => by
      obtain ⟨isName, isValue, restAdmissible⟩ := admissible
      rw [ItemTree.AdmissibleAll, ItemTree.levelsAll,
        ItemTree.admissibleAll_iff rest restAdmissible]
      simp only [isName, isValue, true_and]
  | .object pragma nested :: rest, room, less, admissible => by
      obtain ⟨lists, nestedAdmissible, restAdmissible⟩ := admissible
      rw [ItemTree.AdmissibleAll, ItemTree.levelsAll, nested.admissible_iff nestedAdmissible,
        ItemTree.admissibleAll_iff rest restAdmissible, Nat.max_le]
      simp only [lists, true_and]

end

theorem RootTree.admissible_of_levels_le {tree : RootTree} {limit less : Nat}
    (admissible : tree.Admissible limit) (enough : tree.levels ≤ less) :
    tree.Admissible less := by
  cases tree with
  | block pragma lone => exact admissible
  | object pragma outermost =>
      exact ⟨admissible.1, (outermost.admissible_iff admissible.2).mpr enough⟩

/-- A text of an object is in object form. -/
theorem inObjectForm_of_derived {pragma : Option (Terminal .pragma)} {outermost : ObjectTree}
    {source : Text} (derived : (RootTree.object pragma outermost).lexemes = Lexeme.all source) :
    source.InObjectForm := by
  have isKeyword : outermost.keyword.lexeme.token.kind = .objectKeyword := outermost.keyword.isKind
  refine ⟨outermost.keyword.lexeme.token, ?_, isKeyword⟩
  rw [← Lexeme.tokens_all, ← derived, RootTree.lexemes]
  cases outermost with
  | mk keyword name opening code items closing =>
      cases pragma with
      | none => simp_all [pragmaLexemes, ObjectTree.lexemes]
      | some pragma =>
          have isPragma : pragma.lexeme.token.kind = .pragma := pragma.isKind
          simp_all [pragmaLexemes, ObjectTree.lexemes]

end Grammar

namespace Reader

open Grammar

variable {κ : Type} {reader : Reader κ}

section

variable {larger : Nat}

theorem beginObject_of_limit_le {pragma : Option SourceTable} {outer : List (Level κ)}
    {token : Token} (enough : reader.limit ≤ larger)
    (shallow : ∀ depth place,
      reader.beginObject pragma outer token ≠ .error ⟨.tooDeep depth, place⟩) :
    beginObject { reader with limit := larger } pragma outer token =
      reader.beginObject pragma outer token := by
  by_cases full : reader.limit ≤ outer.length
  · exact absurd (if_pos full) (shallow reader.limit token.span)
  · have roomy : ¬ larger ≤ outer.length := by omega
    rw [beginObject, beginObject, if_neg full, if_neg roomy]

theorem itemStep_of_limit_le {level : Level κ} {outer : List (Level κ)} {token : Token}
    (enough : reader.limit ≤ larger)
    (shallow : ∀ depth place,
      reader.itemStep level outer token ≠ .error ⟨.tooDeep depth, place⟩) :
    itemStep { reader with limit := larger } level outer token =
      reader.itemStep level outer token := by
  obtain ⟨kind, text, start⟩ := token
  cases kind with
  | objectKeyword => exact beginObject_of_limit_le enough shallow
  | _ => rfl

theorem step_of_limit_le {state : State κ} {lexeme : Lexeme} (enough : reader.limit ≤ larger)
    (shallow : ∀ depth place, reader.step state lexeme ≠ .error ⟨.tooDeep depth, place⟩) :
    step { reader with limit := larger } state lexeme = reader.step state lexeme := by
  obtain ⟨lead, ⟨kind, text, start⟩⟩ := lexeme
  cases state with
  | start pragma =>
      cases kind with
      | objectKeyword =>
          have begun : ∀ depth place, reader.beginObject pragma [] ⟨.objectKeyword, text, start⟩ ≠
              .error ⟨.tooDeep depth, place⟩ := by
            cases pragma <;> exact shallow
          have same := beginObject_of_limit_le enough begun
          cases pragma <;> exact same
      | _ => cases pragma <;> rfl
  | opened level outer =>
      cases kind with
      | objectKeyword => exact beginObject_of_limit_le enough shallow
      | _ => rfl
  | items level outer => exact itemStep_of_limit_le enough shallow
  | pragma table level outer =>
      cases kind with
      | objectKeyword => exact beginObject_of_limit_le enough shallow
      | _ => rfl
  | _ => rfl

/-- A run that does not meet the limit is the same with a larger one. -/
theorem resume_of_limit_le {size : Nat} {state : State κ} {lexemes : List Lexeme}
    (enough : reader.limit ≤ larger)
    (shallow : ∀ depth place,
      reader.resume size state lexemes ≠ .error ⟨.tooDeep depth, place⟩) :
    resume { reader with limit := larger } size state lexemes =
      reader.resume size state lexemes := by
  induction lexemes generalizing state with
  | nil => rfl
  | cons lexeme rest inductionHypothesis =>
      rw [resume_cons] at shallow
      have shallowStep : ∀ depth place,
          reader.step state lexeme ≠ .error ⟨.tooDeep depth, place⟩ := by
        intro depth place tooDeep
        apply shallow depth place
        rw [tooDeep]
        rfl
      rw [resume_cons, resume_cons, step_of_limit_le enough shallowStep]
      cases stepped : reader.step state lexeme with
      | error error => rfl
      | ok next =>
          rw [stepped] at shallow
          exact inductionHypothesis shallow

theorem read_of_limit_le (reader : Reader κ) {source : Text} (enough : reader.limit ≤ larger)
    (shallow : ∀ depth place, reader.read source ≠ .error ⟨.tooDeep depth, place⟩) :
    Reader.read { reader with limit := larger } source = reader.read source :=
  resume_of_limit_le enough shallow

end

theorem tooDeep_of_step {state : State κ} {lexeme : Lexeme} {depth : Nat} {place : Span}
    (failed : reader.step state lexeme = .error ⟨.tooDeep depth, place⟩) :
    depth = reader.limit ∧ place = lexeme.token.span ∧
      ∃ outer, state.stage.next lexeme.kind = some (.keyword outer) ∧ reader.limit ≤ outer := by
  have verdict := step_verdict reader state lexeme
  rw [failed] at verdict
  cases verdict with
  | tooDeep begins full => exact ⟨rfl, rfl, _, begins, full⟩
  | faulty content => cases content

/-- A stage behind the keyword of an object shows the objects around it. -/
theorem exists_of_stage_eq_keyword {unfinished : Unfinished} {outer : Nat}
    (here : unfinished.stage = .keyword outer) :
    ∃ objects pragma keyword, unfinished = .afterKeyword pragma keyword objects ∧
      objects.length = outer := by
  cases unfinished with
  | afterKeyword pragma keyword objects =>
      cases here
      exact ⟨objects, pragma, keyword, rfl, rfl⟩
  | _ => cases here

theorem keyword_of_traced {state : State κ} {front : Unfinished} {lexeme : Lexeme} {outer : Nat}
    (traced : Traced reader state front)
    (begins : state.stage.next lexeme.kind = some (.keyword outer))
    (full : reader.limit ≤ outer) :
    ∃ (objects : List OpenObject) (pragma : Option (Terminal .pragma))
      (keyword : Terminal .objectKeyword),
      front.lexemes ++ [lexeme] =
        openLexemes objects ++ (pragmaLexemes pragma ++ [keyword.lexeme]) ∧
      keyword.lexeme = lexeme ∧ objects.length = reader.limit := by
  have room := traced.room
  have exactly : outer = reader.limit := by
    rcases Stage.levels_of_next begins with same | fewer
    · cases same
      omega
    · rw [Stage.levels] at fewer
      omega
  rw [← traced.stage] at begins
  obtain ⟨longer, row, sameStage, -⟩ := front.exists_extends begins
  obtain ⟨objects, pragma, keyword, rfl, count⟩ := exists_of_stage_eq_keyword sameStage
  refine ⟨objects, pragma, keyword, row.symm, ?_, count.trans exactly⟩
  rw [Unfinished.lexemes, ← List.append_assoc] at row
  exact List.singleton_inj.mp (List.append_inj' row rfl).2

/-- The limit is met at the keyword of an object inside as many others. -/
theorem place_of_tooDeep {source : Text} {depth : Nat} {place : Span}
    (failed : reader.read source = .error ⟨.tooDeep depth, place⟩) :
    depth = reader.limit ∧
      ∃ (outer : List OpenObject) (pragma : Option (Terminal .pragma))
        (keyword : Terminal .objectKeyword) (rest : List Lexeme),
        Lexeme.all source =
          openLexemes outer ++ (pragmaLexemes pragma ++ keyword.lexeme :: rest) ∧
        outer.length = reader.limit ∧ place = keyword.lexeme.token.span := by
  rcases cases_of_read_error failed with
    ⟨state, front, lexeme, rest, row, traced, stepFailed⟩ |
      ⟨state, whole, row, traced, finishFailed⟩
  · obtain ⟨sameDepth, samePlace, outer, begins, full⟩ := tooDeep_of_step stepFailed
    obtain ⟨objects, pragma, keyword, cut, isKeyword, count⟩ :=
      keyword_of_traced traced begins full
    refine ⟨sameDepth, objects, pragma, keyword, rest, ?_, count, ?_⟩
    · rw [row, ← List.singleton_append, ← List.append_assoc, cut]
      simp only [List.append_assoc, List.singleton_append]
    · rw [isKeyword, samePlace]
  · cases state <;> cases finishFailed

theorem read_of_levels_le {source : Text} {object : Object κ} {less : Nat} {tree : RootTree}
    (read : reader.read source = .ok object) (derived : tree.lexemes = Lexeme.all source)
    (enough : tree.levels ≤ less) :
    Reader.read { reader with limit := less } source = .ok object := by
  obtain ⟨other, otherDerived, admissible, denotes⟩ := exists_derivation_of_read read
  have same : other = tree := RootTree.eq_of_lexemes_eq (otherDerived.trans derived.symm)
  subst same
  refine (read_eq_ok_iff { reader with limit := less } source object).mpr
    ⟨other, derived, RootTree.admissible_of_levels_le admissible enough, denotes⟩

theorem levels_of_read {source : Text} {object : Object κ}
    (read : reader.read source = .ok object) :
    (source.InObjectForm → object.levels ≤ reader.limit) ∧
      (¬ source.InObjectForm → object.children = []) := by
  obtain ⟨tree, derived, admissible, denotes⟩ := exists_derivation_of_read read
  cases tree with
  | block pragma lone =>
      constructor
      · intro form
        obtain ⟨otherPragma, outermost, same⟩ := RootTree.exists_of_inObjectForm derived form
        cases same
      · intro _
        rw [← denotes]
        rfl
  | object pragma outermost =>
      constructor
      · intro _
        rw [← denotes, RootTree.denote, outermost.levels_denote]
        exact (outermost.admissible_iff admissible.2).mp admissible.2
      · intro otherForm
        exact absurd (inObjectForm_of_derived derived) otherForm

end Reader

open Grammar

/-- What a limit does, and that a larger one changes nothing else. -/
structure LimitExact (dialect : Option Dialect) (source : Text) (limit larger : Nat) : Prop where
  invisible :
    (∀ depth place, Object.read ⟨dialect, limit⟩ source ≠ .error ⟨.tooDeep depth, place⟩) →
      Object.read ⟨dialect, larger⟩ source = Object.read ⟨dialect, limit⟩ source
  bounded : ∀ object, Object.read ⟨dialect, limit⟩ source = .ok object →
    (source.InObjectForm → object.levels ≤ limit) ∧
      (¬ source.InObjectForm → object.children = [])
  enough : ∀ object, Object.read ⟨dialect, larger⟩ source = .ok object →
    ∀ tree : RootTree, tree.lexemes = Lexeme.all source → tree.levels ≤ limit →
      Object.read ⟨dialect, limit⟩ source = .ok object
  place : ∀ depth place, Object.read ⟨dialect, limit⟩ source = .error ⟨.tooDeep depth, place⟩ →
    depth = limit ∧
      ∃ (outer : List OpenObject) (pragma : Option (Terminal .pragma))
        (keyword : Terminal .objectKeyword) (rest : List Lexeme),
        Lexeme.all source =
          openLexemes outer ++ (pragmaLexemes pragma ++ keyword.lexeme :: rest) ∧
        outer.length = limit ∧ place = keyword.lexeme.token.span

/-- A limit on nested objects is met exactly at the objects that are too deep, and is not noticed
otherwise. -/
theorem Object.read_limit (dialect : Option Dialect) (source : Text) {limit larger : Nat}
    (notLess : limit ≤ larger) : LimitExact dialect source limit larger := by
  constructor
  · intro shallow
    exact Reader.read_of_limit_le ⟨limit, Payload.ofBody dialect⟩ notLess shallow
  · intro object read
    exact Reader.levels_of_read read
  · intro object read tree derived enough
    exact Reader.read_of_levels_le read derived enough
  · intro depth place failed
    exact Reader.place_of_tooDeep failed

/-- Two objects, of which a limit of one forbids the inner one. -/
theorem Object.read_limit_pair :
    1 ≤ 2 ∧ LimitExact none "object \"A\" \x7b object \"B\" \x7b \x7d \x7d" 1 2 ∧
      Object.read ⟨none, 1⟩ "object \"A\" \x7b object \"B\" \x7b \x7d \x7d" =
        .error ⟨.tooDeep 1, ⟨13, 19⟩⟩ ∧
      ∃ object, Object.read ⟨none, 2⟩ "object \"A\" \x7b object \"B\" \x7b \x7d \x7d" =
        .ok object := by
  have notLess : 1 ≤ 2 := by decide
  refine ⟨notLess, Object.read_limit none _ notLess, ?_, ?_⟩
  · apply Reader.eq_error_of_error?
    decide +kernel
  · apply Reader.exists_of_isSome
    decide +kernel

end YulTree

import YulTree.Token.Basic

/-!
# Balanced rows of tokens

A row of tokens is balanced if every brace in it has its partner.  A reader that counts the
open braces comes to the same verdict (`balanced_iff`).
-/

namespace YulTree

/-- The rows of kinds in which every brace has its partner. -/
inductive Balanced : List TokenKind → Prop where
  | nil : Balanced []
  | other {kind : TokenKind} {rest : List TokenKind} :
      kind ≠ .openBrace → kind ≠ .closeBrace → Balanced rest → Balanced (kind :: rest)
  | nested {inner rest : List TokenKind} :
      Balanced inner → Balanced rest →
      Balanced (.openBrace :: (inner ++ .closeBrace :: rest))

namespace Balanced

/-- The number of open braces after one more token, unless a brace is closed that was never
opened. -/
def depthStep (depth : Nat) : TokenKind → Option Nat
  | .openBrace => some (depth + 1)
  | .closeBrace =>
      match depth with
      | 0 => none
      | outer + 1 => some outer
  | _ => some depth

def depthAfter (depth : Nat) (kinds : List TokenKind) : Option Nat :=
  kinds.foldlM depthStep depth

theorem depthStep_other {kind : TokenKind} (notOpen : kind ≠ .openBrace)
    (notClose : kind ≠ .closeBrace) (depth : Nat) : depthStep depth kind = some depth := by
  cases kind with
  | openBrace => exact absurd rfl notOpen
  | closeBrace => exact absurd rfl notClose
  | _ => rfl

theorem depthStep_eq_none_iff {depth : Nat} {kind : TokenKind} :
    depthStep depth kind = none ↔ kind = .closeBrace ∧ depth = 0 := by
  cases kind with
  | closeBrace => cases depth <;> simp [depthStep]
  | _ => simp [depthStep]

theorem depthAfter_cons (depth : Nat) (kind : TokenKind) (rest : List TokenKind) :
    depthAfter depth (kind :: rest) = (depthStep depth kind).bind (depthAfter · rest) :=
  rfl

@[simp]
theorem depthAfter_open (depth : Nat) (rest : List TokenKind) :
    depthAfter depth (.openBrace :: rest) = depthAfter (depth + 1) rest := rfl

@[simp]
theorem depthAfter_close (depth : Nat) (rest : List TokenKind) :
    depthAfter (depth + 1) (.closeBrace :: rest) = depthAfter depth rest := rfl

theorem depthAfter_other {kind : TokenKind} (notOpen : kind ≠ .openBrace)
    (notClose : kind ≠ .closeBrace) (depth : Nat) (rest : List TokenKind) :
    depthAfter depth (kind :: rest) = depthAfter depth rest := by
  rw [depthAfter_cons, depthStep_other notOpen notClose]
  rfl

theorem depthAfter_append (depth : Nat) (first second : List TokenKind) :
    depthAfter depth (first ++ second) =
      (depthAfter depth first).bind (depthAfter · second) :=
  List.foldlM_append

/-- Balanced tokens leave as many braces open as there were. -/
theorem depthAfter_eq {kinds : List TokenKind} (balanced : Balanced kinds) (depth : Nat) :
    depthAfter depth kinds = some depth := by
  induction balanced generalizing depth with
  | nil => rfl
  | other notOpen notClose _ restDepth =>
      rw [depthAfter_other notOpen notClose, restDepth]
  | nested _ _ innerDepth restDepth =>
      rw [depthAfter_open, depthAfter_append, innerDepth, Option.bind_some, depthAfter_close,
        restDepth]

/-- If the braces that are open at first are fewer at last, then one of them is closed behind
balanced tokens. -/
theorem split_of_depthAfter : ∀ (kinds : List TokenKind) {depth last : Nat},
    last ≤ depth → depthAfter (depth + 1) kinds = some last →
      ∃ inner rest, kinds = inner ++ .closeBrace :: rest ∧ Balanced inner ∧
        depthAfter depth rest = some last
  | [], depth, last, fewer, counted => by
      have same : depth + 1 = last := Option.some.inj counted
      omega
  | kind :: kinds, depth, last, fewer, counted => by
      by_cases isOpen : kind = .openBrace
      · subst isOpen
        obtain ⟨first, afterFirst, rfl, firstBalanced, countedFirst⟩ :=
          split_of_depthAfter kinds (Nat.le_succ_of_le fewer) counted
        obtain ⟨second, rest, rfl, secondBalanced, countedSecond⟩ :=
          split_of_depthAfter afterFirst fewer countedFirst
        refine ⟨.openBrace :: (first ++ .closeBrace :: second), rest, ?_,
          .nested firstBalanced secondBalanced, countedSecond⟩
        simp
      · by_cases isClose : kind = .closeBrace
        · subst isClose
          exact ⟨[], kinds, rfl, .nil, counted⟩
        · rw [depthAfter_other isOpen isClose] at counted
          obtain ⟨inner, rest, rfl, innerBalanced, countedRest⟩ :=
            split_of_depthAfter kinds fewer counted
          exact ⟨kind :: inner, rest, rfl, .other isOpen isClose innerBalanced, countedRest⟩
termination_by kinds => kinds.length

/-- Trivia are no braces. -/
theorem depthAfter_filter (depth : Nat) (kinds : List TokenKind) :
    depthAfter depth (kinds.filter fun kind => !kind.isTrivia) = depthAfter depth kinds := by
  induction kinds generalizing depth with
  | nil => rfl
  | cons kind rest inductionHypothesis =>
      cases isTrivia : kind.isTrivia with
      | true =>
          have notOpen : kind ≠ .openBrace := by
            rintro rfl
            cases isTrivia
          have notClose : kind ≠ .closeBrace := by
            rintro rfl
            cases isTrivia
          rw [List.filter_cons_of_neg (by simp [isTrivia]), inductionHypothesis,
            depthAfter_other notOpen notClose]
      | false =>
          rw [List.filter_cons_of_pos (by simp [isTrivia]), depthAfter_cons, depthAfter_cons]
          exact congrArg (depthStep depth kind).bind (funext inductionHypothesis)

theorem of_depthAfter : ∀ (kinds : List TokenKind),
    depthAfter 0 kinds = some 0 → Balanced kinds
  | [], _ => .nil
  | kind :: kinds, counted => by
      by_cases isOpen : kind = .openBrace
      · subst isOpen
        obtain ⟨inner, rest, rfl, innerBalanced, countedRest⟩ :=
          split_of_depthAfter kinds (Nat.le_refl 0) counted
        exact .nested innerBalanced (of_depthAfter rest countedRest)
      · by_cases isClose : kind = .closeBrace
        · subst isClose
          cases counted
        · rw [depthAfter_other isOpen isClose] at counted
          exact .other isOpen isClose (of_depthAfter kinds counted)
termination_by kinds => kinds.length

end Balanced

/-- A row is balanced exactly when the count of its open braces starts and ends at zero. -/
theorem balanced_iff {kinds : List TokenKind} :
    Balanced kinds ↔ Balanced.depthAfter 0 kinds = some 0 :=
  ⟨fun balanced => balanced.depthAfter_eq 0, Balanced.of_depthAfter kinds⟩

theorem Balanced.filter_iff {kinds : List TokenKind} :
    Balanced (kinds.filter fun kind => !kind.isTrivia) ↔ Balanced kinds := by
  rw [balanced_iff, balanced_iff, Balanced.depthAfter_filter]

end YulTree

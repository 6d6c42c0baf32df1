import YulTree.Proofs.Token.Balance
import YulTree.Proofs.Token.Brace

/-!
# Where a block ends

A text can stand between the braces of a block if a plain scan of it sees balanced braces and
hides nothing behind it.  Whatever comes behind the closing brace, such a text is cut into the
same pieces (`merge_all_cut`), and every text between two partner braces is of this sort
(`isEnclosed_of_merge`).
-/

namespace YulTree

namespace Mode

def seen (mode : Mode) (text : Text) : List TokenKind := (mode.marks text).filterMap id

theorem seen_append (mode : Mode) (first second : Text) :
    mode.seen (first ++ second) = mode.seen first ++ (mode.after first).seen second := by
  rw [seen, marks_append, List.filterMap_append]
  rfl

end Mode

/-- The texts that can stand between the braces of a block. -/
structure Text.IsEnclosed (body : Text) : Prop where
  balanced : Balanced (Mode.plain.seen body)
  visible : (Mode.plain.after body).sees = true

namespace Piece

/-- A piece that starts in front of a brace ends in front of it, because a piece that holds a brace
is that brace alone. -/
theorem firstPiece_before_brace {c : Char} {body : Text}
    (visible : (Mode.plain.after (c :: body)).sees = true) (rest : Text) :
    ∃ remaining, c :: body = (firstPiece c (body ++ '\x7d' :: rest)).1.text ++ remaining ∧
      (firstPiece c (body ++ '\x7d' :: rest)).2 = remaining ++ '\x7d' :: rest := by
  have whole := firstPiece_append c (body ++ '\x7d' :: rest)
  have skips := skips_firstPiece c (body ++ '\x7d' :: rest)
  have short : ∀ kind, brace? (firstPiece c (body ++ '\x7d' :: rest)).1.kind = some kind →
      (firstPiece c (body ++ '\x7d' :: rest)).1.text = [c] := fun _ => text_of_brace
  obtain ⟨taken, textEq⟩ :=
    List.head?_eq_some_iff.mp (firstPiece_head? c (body ++ '\x7d' :: rest))
  generalize firstPiece c (body ++ '\x7d' :: rest) = cut at whole skips short textEq ⊢
  rw [← List.cons_append] at whole
  rcases List.append_eq_append_iff.mp whole with
    ⟨remaining, bodyEq, restEq⟩ | ⟨beyond, pieceEq, restEq⟩
  · exact ⟨remaining, bodyEq, restEq⟩
  · cases beyond with
    | nil =>
        rw [List.append_nil] at pieceEq
        rw [List.nil_append] at restEq
        exact ⟨[], by rw [pieceEq, List.append_nil], by rw [← restEq, List.nil_append]⟩
    | cons d beyond =>
        obtain ⟨rfl, restEq⟩ := List.cons.inj restEq
        have seen : (Mode.plain.after (c :: body)).mark '\x7d' = some .closeBrace :=
          (Mode.mark_closeBrace_iff _).mpr visible
        have bodyMarks : Mode.plain.marks (c :: body ++ '\x7d' :: rest) =
            Mode.plain.marks (c :: body) ++
              some .closeBrace :: ((Mode.plain.after (c :: body)).next '\x7d').marks rest := by
          rw [Mode.marks_append, Mode.marks_cons (Mode.after _ _), seen]
        rw [Skips, ← List.cons_append, bodyMarks, marks, pieceEq, List.map_append,
          List.map_cons, List.append_assoc] at skips
        have aligned := List.append_inj skips (by simp)
        have isBrace := (List.cons.inj aligned.2).1
        have single := short .closeBrace isBrace.symm
        rw [pieceEq] at single
        simp at single

/-- The pieces of a text up to a brace that is seen are its pieces, whatever follows. -/
theorem all_cut (rest : Text) : ∀ body : Text, (Mode.plain.after body).sees = true →
    ∃ pieces, all (body ++ '\x7d' :: rest) =
        pieces ++ ⟨some .closeBrace, ['\x7d']⟩ :: all rest ∧
      (pieces.map Piece.text).flatten = body ∧
      Mode.plain.marks body = pieces.flatMap fun piece => marks piece.kind piece.text
  | [], _ => by
      refine ⟨[], ?_, rfl, rfl⟩
      rw [List.nil_append, List.nil_append, all]
      rfl
  | c :: body, visible => by
      obtain ⟨remaining, bodyEq, restEq⟩ := firstPiece_before_brace visible rest
      have skips := skips_firstPiece c (body ++ '\x7d' :: rest)
      have remainingShorter : remaining.length < (c :: body).length := by
        have shorter := firstPiece_rest_length c (body ++ '\x7d' :: rest)
        rw [restEq] at shorter
        simp only [List.length_append, List.length_cons] at shorter ⊢
        omega
      rw [Skips, restEq, ← List.cons_append, Mode.marks_append .plain remaining,
        ← List.append_assoc] at skips
      obtain ⟨bodyMarks, restMarks⟩ := Mode.marks_append_inj skips (by rw [bodyEq]; simp [marks])
      have remainingVisible : (Mode.plain.after remaining).sees = true := by
        rw [Mode.marks_cons, Mode.marks_cons] at restMarks
        have sameMark := (List.cons.inj restMarks).1
        rw [(Mode.mark_closeBrace_iff _).mpr visible] at sameMark
        exact (Mode.mark_closeBrace_iff _).mp sameMark.symm
      obtain ⟨pieces, cut, texts, remainingMarks⟩ := all_cut rest remaining remainingVisible
      refine ⟨(firstPiece c (body ++ '\x7d' :: rest)).1 :: pieces, ?_, ?_, ?_⟩
      · rw [List.cons_append, all, restEq, cut]
        rfl
      · rw [List.map_cons, List.flatten_cons, texts, ← bodyEq]
      · rw [List.flatMap_cons, bodyMarks, remainingMarks]
termination_by body => body.length
decreasing_by exact remainingShorter

end Piece

namespace Token

open Piece

theorem brace?_eq_none {kind : TokenKind} (noBrace : Piece.brace? (some kind) = none) :
    kind ≠ .openBrace ∧ kind ≠ .closeBrace := by
  constructor
  · rintro rfl
    cases noBrace
  · rintro rfl
    cases noBrace

/-- The marks of tokens count the open braces as their kinds do. -/
theorem depthAfter_marks {parts : List (TokenKind × Text)} (short : BracesAreShort parts)
    (depth : Nat) :
    Balanced.depthAfter depth ((marks parts).filterMap id) =
      Balanced.depthAfter depth (parts.map Prod.fst) := by
  induction parts generalizing depth with
  | nil => rfl
  | cons part rest inductionHypothesis =>
      obtain ⟨kind, text⟩ := part
      have restDepth := inductionHypothesis fun other member =>
        short other (List.mem_cons_of_mem _ member)
      rw [marks_cons, List.filterMap_append, List.map_cons]
      cases isBrace : Piece.brace? (some kind) with
      | none =>
          obtain ⟨notOpen, notClose⟩ := brace?_eq_none isBrace
          have unseen : (Piece.marks (some kind) text).filterMap id = [] := by
            simp [Piece.marks, isBrace]
          rw [unseen, List.nil_append, restDepth, Balanced.depthAfter_other notOpen notClose]
      | some own =>
          obtain ⟨c, rfl⟩ := short _ List.mem_cons_self own isBrace
          obtain rfl := Piece.eq_of_brace?_eq_some isBrace
          have single : (Piece.marks (some own) [c]).filterMap id = [own] := by
            simp [Piece.marks, isBrace]
          rw [single, List.singleton_append, Balanced.depthAfter_cons, Balanced.depthAfter_cons]
          exact congrArg (Balanced.depthStep depth own).bind (funext restDepth)

theorem balanced_marks_iff {parts : List (TokenKind × Text)} (short : BracesAreShort parts) :
    Balanced ((marks parts).filterMap id) ↔ Balanced (parts.map Prod.fst) := by
  rw [balanced_iff, balanced_iff, depthAfter_marks short]

/-- Garbage does not grow over a token. -/
theorem merge_append {kind : TokenKind} (notGarbage : kind ≠ .garbage) (text : Text)
    (pieces rest : List Piece) :
    merge (pieces ++ ⟨some kind, text⟩ :: rest) =
      merge pieces ++ (kind, text) :: merge rest := by
  induction pieces with
  | nil => rfl
  | cons piece pieces inductionHypothesis =>
      obtain ⟨own, front⟩ := piece
      cases own with
      | some own =>
          rw [List.cons_append, merge, inductionHypothesis, merge]
          rfl
      | none =>
          rw [List.cons_append, merge, merge, inductionHypothesis]
          cases merged : merge pieces with
          | nil =>
              rw [List.nil_append]
              split
              · next same => exact absurd (Prod.mk.inj (List.cons.inj same).1).1 notGarbage
              · rfl
          | cons head others =>
              obtain ⟨headKind, headText⟩ := head
              cases headKind <;> rfl

/-- What can stand between braces is cut off by the closing one, whatever follows. -/
theorem merge_all_cut {body : Text} (enclosed : body.IsEnclosed) (rest : Text) :
    ∃ parts, merge (Piece.all (body ++ '\x7d' :: rest)) =
        parts ++ (.closeBrace, ['\x7d']) :: merge (Piece.all rest) ∧
      (parts.map Prod.snd).flatten = body ∧ Balanced (parts.map Prod.fst) := by
  obtain ⟨pieces, cut, texts, bodyMarks⟩ := Piece.all_cut rest body enclosed.visible
  have merged : merge (Piece.all (body ++ '\x7d' :: rest)) =
      merge pieces ++ (.closeBrace, ['\x7d']) :: merge (Piece.all rest) := by
    rw [cut, merge_append (by decide)]
  have short : BracesAreShort (merge pieces) := fun part member =>
    bracesAreShort_merge_all (body ++ '\x7d' :: rest) part
      (merged ▸ List.mem_append_left _ member)
  refine ⟨merge pieces, merged, ?_, ?_⟩
  · rw [flatten_merge, texts]
  · rw [← balanced_marks_iff short, marks_merge, ← bodyMarks]
    exact enclosed.balanced

/-- What stands between a brace and its partner can stand between braces. -/
theorem isEnclosed_of_merge {source : Text} (front : List (TokenKind × Text))
    {inner back : List (TokenKind × Text)} {opening closing : Text}
    (cut : merge (Piece.all source) =
      front ++ (.openBrace, opening) :: (inner ++ (.closeBrace, closing) :: back))
    (balanced : Balanced (inner.map Prod.fst)) :
    Text.IsEnclosed (inner.map Prod.snd).flatten := by
  have short := bracesAreShort_merge_all source
  rw [cut] at short
  have shortInner : BracesAreShort inner := fun part member =>
    short part (by simp [member])
  obtain ⟨o, rfl⟩ := short (.openBrace, opening) (by simp) .openBrace rfl
  obtain ⟨c, rfl⟩ := short (.closeBrace, closing) (by simp) .closeBrace rfl
  have whole := flatten_merge_all source
  have sourceMarks := marks_merge_all source
  rw [cut] at sourceMarks whole
  rw [← whole, List.map_append, List.flatten_append, marks_append] at sourceMarks
  obtain ⟨-, fromOpening⟩ := Mode.marks_append_inj sourceMarks (length_marks front)
  obtain ⟨opens, fromInner⟩ := List.cons.inj fromOpening
  rw [Mode.next_of_mark opens] at fromInner
  have innerFirst :
      Mode.plain.marks ((inner.map Prod.snd).flatten ++
          (((TokenKind.closeBrace, [c]) :: back).map Prod.snd).flatten) =
        marks inner ++ marks ((.closeBrace, [c]) :: back) := by
    rw [← marks_append, ← List.flatten_append, ← List.map_append]
    exact fromInner
  obtain ⟨innerMarks, fromClosing⟩ := Mode.marks_append_inj innerFirst (length_marks inner)
  obtain ⟨closes, -⟩ := List.cons.inj fromClosing
  refine ⟨?_, (Mode.mark_eq_some closes).1⟩
  rw [Mode.seen, innerMarks, balanced_marks_iff shortInner]
  exact balanced

end Token

end YulTree

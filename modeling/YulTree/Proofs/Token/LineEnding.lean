import YulTree.Proofs.Text.LineEnding
import YulTree.Proofs.Token.Joint

/-!
# Tokens between line endings

What carriage returns in front of the line feeds of a source make of its tokens.  A token is cut off
as before, or it is open at the end of a line and takes up the carriage return there (`rows_all`).
-/

namespace YulTree

namespace Text

theorem respaces_crlf : Respaces crlf := by
  constructor
  · intro c rest unbroken
    exact crlf_cons unbroken rest
  · intro text breaks d member
    cases text with
    | nil => cases member
    | cons c rest =>
        obtain rfl := breaks c rfl
        obtain rfl := Option.mem_some.mp member
        rfl

/-- What passes a test that line endings pass keeps its line endings. -/
theorem span_crlf (test : Char → Bool) (returns : test '\r' = true) (feeds : test '\n' = true)
    (text : Text) :
    (crlf text).takeWhile test = crlf (text.takeWhile test) ∧
      (crlf text).dropWhile test = crlf (text.dropWhile test) := by
  induction text with
  | nil => exact ⟨rfl, rfl⟩
  | cons c rest inductionHypothesis =>
      by_cases isBreak : c = '\n'
      · subst isBreak
        simp [returns, feeds, inductionHypothesis]
      · by_cases passes : test c = true
        · rw [crlf_cons isBreak, List.takeWhile_cons_of_pos passes,
            List.dropWhile_cons_of_pos passes, List.takeWhile_cons_of_pos passes,
            List.dropWhile_cons_of_pos passes, crlf_cons isBreak, inductionHypothesis.1,
            inductionHypothesis.2]
          exact ⟨rfl, rfl⟩
        · rw [crlf_cons isBreak, List.takeWhile_cons_of_neg passes,
            List.dropWhile_cons_of_neg passes, List.takeWhile_cons_of_neg passes,
            List.dropWhile_cons_of_neg passes, crlf_cons isBreak]
          exact ⟨rfl, rfl⟩

end Text

namespace Piece

open Text Lexeme

theorem commentRun_crlf (text : Text) :
    commentRun (crlf text) =
      ⟨(commentRun text).isComplete, crlf (commentRun text).taken,
        crlf (commentRun text).rest⟩ := by
  fun_induction commentRun text with
  | case1 => rfl
  | case2 c rest closes =>
      obtain ⟨rfl, slash⟩ := closes
      obtain ⟨others, rfl⟩ := List.head?_eq_some_iff.mp slash
      rfl
  | case3 c rest stays inductionHypothesis =>
      by_cases isBreak : c = '\n'
      · subst isBreak
        rw [crlf_lineFeed, commentRun, if_neg (by simp), commentRun, if_neg (by simp),
          inductionHypothesis]
        rfl
      · have sameHead := respaces_crlf.head?_eq_some_iff (c := '/') rfl rest
        have goesOn : ¬ (c = '*' ∧ (crlf rest).head? = some '/') := by
          rw [sameHead]
          exact stays
        rw [crlf_cons isBreak, commentRun, if_neg goesOn, inductionHypothesis, Run.prepend,
          Run.prepend, crlf_append, crlf_cons isBreak]
        rfl

/-- What becomes of an open literal: it may take up the carriage return at the end of its line. -/
inductive OpenReturned (run : Run) : Run → Prop where
  | same : OpenReturned run ⟨false, crlf run.taken, crlf run.rest⟩
  | late (more : Text) : run.rest = '\n' :: more →
      OpenReturned run ⟨false, crlf run.taken ++ ['\r'], '\n' :: crlf more⟩

theorem OpenReturned.prepend {run other : Run} (returned : OpenReturned run other) {front : Text}
    (unbroken : crlf front = front) : OpenReturned (run.prepend front) (other.prepend front) := by
  have whole : crlf (run.prepend front).taken = front ++ crlf run.taken := by
    rw [Run.prepend, crlf_append, unbroken]
  cases returned with
  | same =>
      have result : OpenReturned (run.prepend front)
          ⟨false, crlf (run.prepend front).taken, crlf (run.prepend front).rest⟩ := .same
      rw [whole] at result
      exact result
  | late more rest =>
      have result : OpenReturned (run.prepend front)
          ⟨false, crlf (run.prepend front).taken ++ ['\r'], '\n' :: crlf more⟩ := .late more rest
      rw [whole, List.append_assoc] at result
      exact result

theorem openReturned_quotedRun {quote : Char} (quotes : isQuote quote = true) {text : Text}
    (openEnded : (quotedRun quote text).isComplete = false) :
    OpenReturned (quotedRun quote text) (quotedRun quote (crlf text)) := by
  have notReturn : '\r' ≠ quote := by
    rintro rfl
    cases quotes
  have notFeed : '\n' ≠ quote := by
    rintro rfl
    cases quotes
  have atBreak : ∀ more, quotedRun quote ('\n' :: more) = ⟨false, [], '\n' :: more⟩ := by
    intro more
    rw [quotedRun.eq_def]
    simp only [if_neg notFeed, if_true]
  fun_induction quotedRun quote text with
  | case1 => exact .same
  | case2 => cases openEnded
  | case3 rest other =>
      have returned : quotedRun quote (crlf ('\n' :: rest)) = ⟨false, ['\r'], '\n' :: crlf rest⟩ := by
        rw [crlf_lineFeed, quotedRun.eq_def]
        simp only [if_neg notReturn, atBreak]
        rfl
      rw [returned]
      exact .late rest rfl
  | case4 other _ =>
      have returned : quotedRun quote (crlf ['\\']) = ⟨false, ['\\'], []⟩ := by
        rw [crlf_cons (by decide), crlf_nil, quotedRun]
        simp only [if_neg other]
        rfl
      rw [returned]
      exact .same
  | case5 rest other _ =>
      have returned : quotedRun quote (crlf ('\\' :: '\n' :: rest)) =
          ⟨false, ['\\', '\r'], '\n' :: crlf rest⟩ := by
        rw [crlf_cons (by decide), crlf_lineFeed, quotedRun]
        simp only [if_neg other, atBreak]
        rfl
      rw [returned]
      exact .late rest rfl
  | case6 d rest unbroken other _ inductionHypothesis =>
      have step : quotedRun quote (crlf ('\\' :: d :: rest)) =
          (quotedRun quote (crlf rest)).prepend ['\\', d] := by
        rw [crlf_cons (by decide), crlf_cons unbroken, quotedRun]
        simp only [if_neg other, if_neg unbroken]
        rfl
      rw [step]
      apply (inductionHypothesis openEnded).prepend
      rw [crlf_cons (by decide), crlf_cons unbroken, crlf_nil]
  | case7 c rest other unbroken plain inductionHypothesis =>
      have step : quotedRun quote (crlf (c :: rest)) =
          (quotedRun quote (crlf rest)).prepend [c] := by
        rw [crlf_cons unbroken, quotedRun.eq_def]
        simp only [if_neg other, if_neg unbroken, if_neg plain]
      rw [step]
      apply (inductionHypothesis openEnded).prepend
      rw [crlf_cons unbroken, crlf_nil]

/-- Firm pieces have no line feeds in them. -/
theorem IsFirm.crlf_text {c : Char} {text : Text} (isFirm : IsFirm c text) (unbroken : c ≠ '\n') :
    crlf (firstPiece c text).1.text = (firstPiece c text).1.text := by
  have whole := firstPiece_append c text
  have changed := firstPiece_append c (crlf text)
  rw [isFirm crlf respaces_crlf, ← crlf_cons unbroken, ← whole, crlf_append] at changed
  exact (List.append_cancel_right changed).symm

/-- The kinds of pieces that can be open at the end of a line. -/
def IsOpen (kind : Option TokenKind) : Prop :=
  kind = none ∨ kind = some .lineComment ∨ kind = some .pragma

theorem isOpen_lineCommentPiece (rest : Text) : IsOpen (lineCommentPiece rest).1.kind := by
  by_cases isPragma :
      (pragmaPayload? ('/' :: '/' :: rest.takeWhile (· != '\n'))).isSome = true
  · exact .inr (.inr (by rw [lineCommentPiece, if_pos isPragma]))
  · exact .inr (.inl (by rw [lineCommentPiece, if_neg isPragma]))

theorem lineCommentPiece_crlf (rest : Text) :
    lineCommentPiece (crlf rest) =
        (⟨(lineCommentPiece rest).1.kind, crlf (lineCommentPiece rest).1.text⟩,
          crlf (lineCommentPiece rest).2) ∨
      ∃ more, (lineCommentPiece rest).2 = '\n' :: more ∧ IsOpen (lineCommentPiece rest).1.kind ∧
        lineCommentPiece (crlf rest) =
          (⟨(lineCommentPiece rest).1.kind, crlf (lineCommentPiece rest).1.text ++ ['\r']⟩,
            '\n' :: crlf more) := by
  have unbroken := unbroken_takeWhile rest
  have text : crlf (lineCommentPiece rest).1.text = (lineCommentPiece rest).1.text :=
    crlf_eq_self (by simpa [lineCommentPiece] using unbroken)
  have whole := List.takeWhile_append_dropWhile (p := (· != '\n')) (l := rest)
  cases left : rest.dropWhile (· != '\n') with
  | nil =>
      rw [left, List.append_nil] at whole
      rw [whole] at unbroken
      have behind : (lineCommentPiece rest).2 = [] := left
      left
      rw [text, behind, crlf_eq_self unbroken, crlf_nil, ← behind]
  | cons d more =>
      obtain rfl : d = '\n' := by simpa using fails_of_dropWhile left
      refine .inr ⟨more, left, isOpen_lineCommentPiece rest, ?_⟩
      have returned : crlf rest =
          (rest.takeWhile (· != '\n') ++ ['\r']) ++ '\n' :: crlf more := by
        rw [left] at whole
        rw [← whole, crlf_append, crlf_eq_self unbroken, whole]
        simp
      have goesOnReturned : ∀ d ∈ rest.takeWhile (· != '\n') ++ ['\r'], (d != '\n') = true := by
        intro d member
        rcases List.mem_append.mp member with inFront | last
        · exact List.all_eq_true.mp List.all_takeWhile d inFront
        · rw [List.mem_singleton.mp last]
          rfl
      have ends : ∀ d ∈ ('\n' :: crlf more).head?, (d != '\n') = false := ends_cons rfl _
      obtain ⟨taken, behind⟩ := span_of_ends goesOnReturned ends
      have sameKind := pragmaPayload?_append_blank (d := '\r') rfl
        ('/' :: '/' :: rest.takeWhile (· != '\n'))
      rw [text, returned, lineCommentPiece, lineCommentPiece, taken, behind, ← List.cons_append,
        ← List.cons_append, sameKind, Option.isSome_map]

theorem firstPiece_crlf {c : Char} (unbroken : c ≠ '\n') (text : Text) :
    firstPiece c (crlf text) =
        (⟨(firstPiece c text).1.kind, crlf (firstPiece c text).1.text⟩,
          crlf (firstPiece c text).2) ∨
      ∃ more, (firstPiece c text).2 = '\n' :: more ∧ IsOpen (firstPiece c text).1.kind ∧
        firstPiece c (crlf text) =
          (⟨(firstPiece c text).1.kind, crlf (firstPiece c text).1.text ++ ['\r']⟩,
            '\n' :: crlf more) := by
  cases beginning c text with
  | firm isFirm =>
      left
      rw [isFirm.crlf_text unbroken, isFirm crlf respaces_crlf]
  | space blank =>
      left
      obtain ⟨taken, left⟩ := span_crlf isSpace rfl rfl text
      rw [firstPiece_space blank, firstPiece_space blank, taken, left, crlf_cons unbroken]
  | lineComment rest slash cut =>
      subst slash cut
      rw [crlf_cons (by decide)]
      exact lineCommentPiece_crlf rest
  | blockComment rest slash cut =>
      subst slash cut
      left
      rw [crlf_cons (by decide)]
      change ofRun .blockComment ((commentRun (crlf rest)).prepend "/*") = _
      rw [commentRun_crlf]
      rfl
  | openQuote quotes openEnded =>
      have returned := openReturned_quotedRun quotes openEnded
      rw [firstPiece_quote quotes, firstPiece_quote quotes]
      generalize quotedRun c text = run at returned openEnded ⊢
      generalize quotedRun c (crlf text) = other at returned ⊢
      obtain ⟨isComplete, taken, rest⟩ := run
      cases openEnded
      cases returned with
      | same =>
          left
          rw [ofRun, ofRun, Run.prepend, Run.prepend, crlf_append, crlf_cons unbroken]
          rfl
      | late more broken =>
          refine .inr ⟨more, broken, .inl rfl, ?_⟩
          rw [ofRun, ofRun, Run.prepend, Run.prepend, crlf_append, crlf_cons unbroken]
          rfl

end Piece

namespace Token

open Text Piece

/-- What becomes of the tokens of a source: each of them keeps its kind and its line endings are
changed, but one that is open at the end of a line also takes up the carriage return there, which
the blank space behind it loses. -/
inductive Rows : List (TokenKind × Text) → List (TokenKind × Text) → Prop where
  | nil : Rows [] []
  | same (kind : TokenKind) (text : Text) {rest others : List (TokenKind × Text)} :
      Rows rest others → Rows ((kind, text) :: rest) ((kind, crlf text) :: others)
  | late (kind : TokenKind) (text blanks : Text) {rest others : List (TokenKind × Text)} :
      kind = .garbage ∨ kind = .lineComment ∨ kind = .pragma → Rows rest others →
      Rows ((kind, text) :: (.whitespace, '\n' :: blanks) :: rest)
        ((kind, crlf text ++ ['\r']) :: (.whitespace, '\n' :: crlf blanks) :: others)

theorem Rows.merge_none {pieces returned : List Piece} (rows : Rows (merge pieces) (merge returned))
    (text : Text) :
    Rows (merge (⟨none, text⟩ :: pieces)) (merge (⟨none, crlf text⟩ :: returned)) := by
  rw [merge, merge]
  generalize merge pieces = parts at rows ⊢
  generalize merge returned = others at rows ⊢
  cases rows with
  | nil => exact .same .garbage text .nil
  | same kind more rest =>
      cases kind with
      | garbage =>
          have grown := Rows.same .garbage (text ++ more) rest
          rw [crlf_append] at grown
          exact grown
      | _ => exact .same .garbage text (.same _ more rest)
  | late kind more blanks isOpen rest =>
      rcases isOpen with rfl | rfl | rfl
      · have grown := Rows.late .garbage (text ++ more) blanks (.inl rfl) rest
        rw [crlf_append, List.append_assoc] at grown
        exact grown
      · exact .same .garbage text (.late _ more blanks (.inr (.inl rfl)) rest)
      · exact .same .garbage text (.late _ more blanks (.inr (.inr rfl)) rest)

theorem Rows.merge_same {piece : Piece} {pieces returned : List Piece}
    (rows : Rows (merge pieces) (merge returned)) :
    Rows (merge (piece :: pieces)) (merge (⟨piece.kind, crlf piece.text⟩ :: returned)) := by
  obtain ⟨kind, text⟩ := piece
  cases kind with
  | none => exact rows.merge_none text
  | some kind => exact .same kind text rows

theorem Rows.merge_late {kind : Option TokenKind} (isOpen : IsOpen kind) (text blanks : Text)
    {pieces returned : List Piece} (rows : Rows (merge pieces) (merge returned)) :
    Rows (merge (⟨kind, text⟩ :: ⟨some .whitespace, '\n' :: blanks⟩ :: pieces))
      (merge (⟨kind, crlf text ++ ['\r']⟩ :: ⟨some .whitespace, '\n' :: crlf blanks⟩ ::
        returned)) := by
  rcases isOpen with rfl | rfl | rfl
  · rw [merge_none_some (by decide), merge_none_some (by decide)]
    exact .late .garbage text blanks (.inl rfl) rows
  · exact .late .lineComment text blanks (.inr (.inl rfl)) rows
  · exact .late .pragma text blanks (.inr (.inr rfl)) rows

theorem all_lineFeed (rest : Text) :
    all ('\n' :: rest) =
      ⟨some .whitespace, '\n' :: rest.takeWhile isSpace⟩ :: all (rest.dropWhile isSpace) := by
  rw [all, Lexeme.firstPiece_space rfl]

theorem rows_merge_all : ∀ text : Text, Rows (merge (all text)) (merge (all (crlf text)))
  | [] => by
      rw [crlf_nil, all]
      exact .nil
  | c :: rest => by
      by_cases isBreak : c = '\n'
      · subst isBreak
        obtain ⟨taken, left⟩ := span_crlf isSpace rfl rfl rest
        have returned : firstPiece '\r' ('\n' :: crlf rest) =
            (⟨some .whitespace, crlf ('\n' :: rest.takeWhile isSpace)⟩,
              crlf (rest.dropWhile isSpace)) := by
          rw [Lexeme.firstPiece_space rfl, List.takeWhile_cons_of_pos rfl,
            List.dropWhile_cons_of_pos rfl, taken, left]
          rfl
        have shorter : (rest.dropWhile isSpace).length < ('\n' :: rest).length :=
          Nat.lt_succ_of_le (List.dropWhile_suffix isSpace).length_le
        have rows := rows_merge_all (rest.dropWhile isSpace)
        rw [crlf_lineFeed, all_lineFeed, all, returned]
        exact rows.merge_same
      · have shorter := firstPiece_rest_length c rest
        rw [crlf_cons isBreak, all, all]
        rcases firstPiece_crlf isBreak rest with same | ⟨more, broken, isOpen, late⟩
        · have rows := rows_merge_all (firstPiece c rest).2
          rw [same]
          exact rows.merge_same
        · obtain ⟨taken, left⟩ := span_crlf isSpace rfl rfl more
          have evenShorter : (more.dropWhile isSpace).length < (c :: rest).length := by
            have dropped := (List.dropWhile_suffix isSpace (l := more)).length_le
            rw [broken, List.length_cons] at shorter
            omega
          have rows := rows_merge_all (more.dropWhile isSpace)
          rw [late, broken, all_lineFeed, all_lineFeed, taken, left]
          exact rows.merge_late isOpen _ _
termination_by text => text.length
decreasing_by
  · exact shorter
  · exact shorter
  · exact evenShorter

end Token

namespace Lexeme

open Text

/-- The lexeme of a source, and what becomes of it when the line endings are changed: it stands
behind the same text, and it may take up a carriage return if it is garbage or a pragma. -/
structure Returned (source : Text) (lexeme returned : Lexeme) : Prop where
  kind : returned.kind = lexeme.kind
  place : ∃ front back, source = front ++ (lexeme.token.text ++ back) ∧
    lexeme.token.start = front.byteSize ∧ returned.token.start = (crlf front).byteSize
  text : returned.token.text = crlf lexeme.token.text ∨
    (lexeme.kind = .garbage ∨ lexeme.kind = .pragma) ∧
      returned.token.text = crlf lexeme.token.text ++ ['\r']

theorem returned_onward_cons {source front back text returnedText : Text} {kind : TokenKind}
    {rest others : List (TokenKind × Text)} (whole : source = front ++ (text ++ back))
    (texts : kind.isTrivia = true ∨ returnedText = crlf text ∨
      (kind = .garbage ∨ kind = .pragma) ∧ returnedText = crlf text ++ ['\r'])
    (behind : ∀ lead other, List.Forall₂ (Returned source)
      (onward lead (front.byteSize + text.byteSize) rest)
      (onward other ((crlf front).byteSize + returnedText.byteSize) others)) (lead other : Text) :
    List.Forall₂ (Returned source) (onward lead front.byteSize ((kind, text) :: rest))
      (onward other (crlf front).byteSize ((kind, returnedText) :: others)) := by
  cases isTrivia : kind.isTrivia with
  | true =>
      rw [onward_trivia isTrivia, onward_trivia isTrivia]
      exact behind _ _
  | false =>
      rw [onward_token isTrivia, onward_token isTrivia]
      rw [isTrivia] at texts
      exact .cons ⟨rfl, ⟨front, back, whole, rfl, rfl⟩, texts.resolve_left Bool.false_ne_true⟩
        (behind [] [])

theorem returned_onward {parts others : List (TokenKind × Text)} (rows : Token.Rows parts others)
    {source : Text} (front lead other : Text)
    (whole : source = front ++ (parts.map Prod.snd).flatten) :
    List.Forall₂ (Returned source) (onward lead front.byteSize parts)
      (onward other (crlf front).byteSize others) := by
  induction rows generalizing front lead other with
  | nil => exact .nil
  | same kind text rest inductionHypothesis =>
      apply returned_onward_cons whole (.inr (.inl rfl))
      intro lead other
      rw [← Text.byteSize_append, ← Text.byteSize_append, ← crlf_append]
      apply inductionHypothesis
      rw [whole, List.map_cons, List.flatten_cons, List.append_assoc]
  | late kind text blanks isOpen rest inductionHypothesis =>
      have texts : kind.isTrivia = true ∨ crlf text ++ ['\r'] = crlf text ∨
          (kind = .garbage ∨ kind = .pragma) ∧ crlf text ++ ['\r'] = crlf text ++ ['\r'] := by
        rcases isOpen with rfl | rfl | rfl
        · exact .inr (.inr ⟨.inl rfl, rfl⟩)
        · exact .inl rfl
        · exact .inr (.inr ⟨.inr rfl, rfl⟩)
      apply returned_onward_cons whole texts
      intro lead other
      have sizes : (crlf front).byteSize + (crlf text ++ ['\r']).byteSize +
          Text.byteSize ('\n' :: crlf blanks) =
            (crlf (front ++ (text ++ '\n' :: blanks))).byteSize := by
        simp [Nat.add_assoc]
      rw [onward_trivia rfl, onward_trivia rfl, sizes, Nat.add_assoc, ← Text.byteSize_append,
        ← Text.byteSize_append]
      apply inductionHypothesis
      rw [whole]
      simp

theorem returned_all (source : Text) :
    List.Forall₂ (Returned source) (all source) (all (crlf source)) := by
  apply returned_onward (Token.rows_merge_all source) []
  rw [Token.flatten_merge_all, List.nil_append]

end Lexeme

end YulTree

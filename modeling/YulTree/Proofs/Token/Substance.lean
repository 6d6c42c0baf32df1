import YulTree.Proofs.Token.Joint

/-!
# Texts without comments

The tokens of a text that are neither blank space nor comments.  They stay as they are when blank
space is taken away at the ends of lines, also where a line begins inside a comment
(`mem_substance?_append`).
-/

namespace YulTree

/-- Blank space and comments are not substantial, and pragmas are comments. -/
def TokenKind.isSubstantial : TokenKind → Bool
  | .whitespace | .lineComment | .blockComment | .pragma => false
  | _ => true

/-- The parts that are neither blank space nor comments. -/
def Token.substance (parts : List (TokenKind × Text)) : List (TokenKind × Text) :=
  parts.filter fun part => part.1.isSubstantial

theorem Token.substance_cons (kind : TokenKind) (text : Text) (rest : List (TokenKind × Text)) :
    substance ((kind, text) :: rest) =
      if kind.isSubstantial then (kind, text) :: substance rest else substance rest :=
  List.filter_cons

namespace Piece

/-- The substantial tokens of a piece and of what follows it, unless the piece is no token. -/
def prepend? (piece : Piece) (behind : Option (List (TokenKind × Text))) :
    Option (List (TokenKind × Text)) :=
  match piece.kind with
  | none => none
  | some kind => if kind.isSubstantial then behind.map ((kind, piece.text) :: ·) else behind

/-- The substantial tokens of pieces that are all tokens. -/
def substance? : List Piece → Option (List (TokenKind × Text))
  | [] => some []
  | piece :: rest => piece.prepend? (substance? rest)

theorem substance?_token (kind : TokenKind) (text : Text) (rest : List Piece) :
    substance? (⟨some kind, text⟩ :: rest) =
      if kind.isSubstantial then (substance? rest).map ((kind, text) :: ·) else substance? rest :=
  rfl

theorem mem_prepend?_of_forall {behind other : Option (List (TokenKind × Text))}
    (keeps : ∀ parts ∈ behind, parts ∈ other) (piece : Piece) :
    ∀ parts ∈ piece.prepend? behind, parts ∈ piece.prepend? other := by
  intro parts member
  unfold prepend? at member ⊢
  cases kind : piece.kind with
  | none =>
      rw [kind] at member
      cases member
  | some kind =>
      simp only [kind] at member ⊢
      split at member
      · next isSubstantial =>
          obtain ⟨others, found, rfl⟩ := Option.map_eq_some_iff.mp member
          rw [if_pos isSubstantial, keeps others found]
          rfl
      · next notSubstantial =>
          rw [if_neg notSubstantial]
          exact keeps parts member

end Piece

namespace Text

open Piece

/-- The substantial tokens of a text of which every piece is a token, where the text may begin
inside a block comment. -/
def substance? : Bool → Text → Option (List (TokenKind × Text))
  | false, text => Piece.substance? (all text)
  | true, text =>
      if (commentRun text).isComplete then Piece.substance? (all (commentRun text).rest) else none

theorem substance?_nil : substance? false [] = some [] := by
  rw [substance?, all]
  rfl

theorem substance?_cons (c : Char) (rest : Text) :
    substance? false (c :: rest) =
      (firstPiece c rest).1.prepend? (substance? false (firstPiece c rest).2) := by
  rw [substance?, all]
  rfl

theorem substance?_of_kind {c : Char} {rest : Text} (isNone : (firstPiece c rest).1.kind = none) :
    substance? false (c :: rest) = none := by
  rw [substance?_cons, prepend?, isNone]

theorem substance?_comment (text : Text) :
    substance? true text =
      if (commentRun text).isComplete then substance? false (commentRun text).rest else none := rfl

theorem substance?_comment_cons (c : Char) (rest : Text) :
    substance? true (c :: rest) =
      if c = '*' ∧ rest.head? = some '/' then substance? false rest.tail
      else substance? true rest := by
  by_cases closes : c = '*' ∧ rest.head? = some '/'
  · have run : commentRun (c :: rest) = ⟨true, [c, '/'], rest.tail⟩ := if_pos closes
    rw [substance?_comment, run, if_pos closes]
    rfl
  · have run : commentRun (c :: rest) = (commentRun rest).prepend [c] := if_neg closes
    rw [substance?_comment, run, if_neg closes]
    rfl

theorem substance?_blockComment (rest : Text) :
    substance? false ('/' :: '*' :: rest) = substance? true rest := by
  have first : firstPiece '/' ('*' :: rest) =
      (⟨if (commentRun rest).isComplete then some .blockComment else none,
        "/*" ++ (commentRun rest).taken⟩, (commentRun rest).rest) := rfl
  rw [substance?_cons, first, substance?_comment]
  by_cases closed : (commentRun rest).isComplete = true
  · rw [if_pos closed, if_pos closed]
    rfl
  · rw [if_neg closed, if_neg closed]
    rfl

theorem substance?_lineComment (rest : Text) :
    substance? false ('/' :: '/' :: rest) = substance? false (rest.dropWhile (· != '\n')) := by
  have first : firstPiece '/' ('/' :: rest) = lineCommentPiece rest := rfl
  rw [substance?_cons, first, lineCommentPiece]
  by_cases isPragma :
      (pragmaPayload? ('/' :: '/' :: rest.takeWhile (· != '\n'))).isSome = true
  · rw [if_pos isPragma]
    rfl
  · rw [if_neg isPragma]
    rfl

theorem substance?_space {c : Char} (space : isSpace c = true) (rest : Text) :
    substance? false (c :: rest) = substance? false rest := by
  have skipped : ∀ (d : Char) (others : Text), isSpace d = true →
      substance? false (d :: others) = substance? false (others.dropWhile isSpace) := by
    intro d others isBlank
    rw [substance?_cons, Lexeme.firstPiece_space isBlank]
    rfl
  rw [skipped c rest space]
  cases rest with
  | nil => rfl
  | cons d others =>
      by_cases spaceNext : isSpace d = true
      · rw [List.dropWhile_cons_of_pos spaceNext, skipped d others spaceNext]
      · rw [List.dropWhile_cons_of_neg spaceNext]

/-- A blank character begins blank space, or it begins nothing at all. -/
theorem kind_firstPiece_blank {c : Char} (isBlank : blank.contains c = true)
    (notSpace : isSpace c = false) (rest : Text) : (firstPiece c rest).1.kind = none := by
  have isOther : Initial.ofChar c = .other := by
    have each : Respaces.breakChars.all
        (fun d => d == '\x7d' || isSpace d || Initial.ofChar d == .other) = true := by decide
    have breaks : isBreak c = true := by rw [isBreak, isBlank, Bool.true_or]
    have alternatives := List.all_eq_true.mp each c (Respaces.mem_breakChars breaks)
    have notBrace : (c == '\x7d') = false := by
      refine beq_eq_false_iff_ne.mpr ?_
      rintro rfl
      cases isBlank
    rw [notBrace, notSpace] at alternatives
    exact beq_iff_eq.mp alternatives
  rw [firstPiece, isOther]

/-- Blank space in front of a text may be taken away. -/
theorem mem_substance?_of_blank {front : Text} (isBlank : ∀ c ∈ front, blank.contains c = true)
    (rest : Text) (inComment : Bool) :
    ∀ parts ∈ substance? inComment (front ++ rest), parts ∈ substance? inComment rest := by
  induction front with
  | nil => exact fun _ member => member
  | cons c front inductionHypothesis =>
      obtain ⟨firstBlank, frontBlank⟩ := List.forall_mem_cons.mp isBlank
      intro parts member
      refine inductionHypothesis frontBlank parts ?_
      cases inComment with
      | true =>
          have notStar : c ≠ '*' := by
            rintro rfl
            cases firstBlank
          rw [List.cons_append, substance?_comment_cons,
            if_neg fun closes => notStar closes.1] at member
          exact member
      | false =>
          cases space : isSpace c with
          | true =>
              rw [List.cons_append, substance?_space space] at member
              exact member
          | false =>
              have isNone := kind_firstPiece_blank firstBlank space (front ++ rest)
              rw [List.cons_append, substance?_of_kind isNone] at member
              cases member

/-- Spaces in front of a text do not matter. -/
theorem substance?_spaces {front : Text} (spaces : ∀ c ∈ front, isSpace c = true) (rest : Text)
    (inComment : Bool) : substance? inComment (front ++ rest) = substance? inComment rest := by
  induction front with
  | nil => rfl
  | cons c front inductionHypothesis =>
      obtain ⟨space, frontSpaces⟩ := List.forall_mem_cons.mp spaces
      rw [← inductionHypothesis frontSpaces, List.cons_append]
      cases inComment with
      | true =>
          have notStar : c ≠ '*' := by
            rintro rfl
            cases space
          rw [substance?_comment_cons, if_neg fun closes => notStar closes.1]
      | false => exact substance?_space space (front ++ rest)

theorem notMem_takeWhile_tail {quote c : Char} {rest : Text} (unbroken : c ≠ '\n')
    (unquoted : quote ∉ List.takeWhile (· != '\n') (c :: rest)) :
    quote ∉ rest.takeWhile (· != '\n') := by
  rw [List.takeWhile_cons_of_pos (by simpa using unbroken)] at unquoted
  exact fun member => unquoted (List.mem_cons_of_mem _ member)

/-- A literal is open if no quotation mark follows on the line. -/
theorem isComplete_quotedRun_of_notMem {quote : Char} (notBreak : quote ≠ '\n') {text : Text}
    (unquoted : quote ∉ text.takeWhile (· != '\n')) :
    (quotedRun quote text).isComplete = false := by
  fun_induction quotedRun quote text with
  | case1 | case3 | case4 | case5 => rfl
  | case2 rest => simp [notBreak] at unquoted
  | case6 d rest unbroken other _ inductionHypothesis =>
      exact inductionHypothesis
        (notMem_takeWhile_tail unbroken (notMem_takeWhile_tail (by decide) unquoted))
  | case7 c rest other unbroken plain inductionHypothesis =>
      exact inductionHypothesis (notMem_takeWhile_tail unbroken unquoted)

/-- A literal that is open at the end of a text stays so if no quotation mark follows on the
line. -/
theorem isComplete_quotedRun_append {quote : Char} (notBreak : quote ≠ '\n') {text more : Text}
    (openEnded : (quotedRun quote text).isComplete = false)
    (unquoted : quote ∉ more.takeWhile (· != '\n')) :
    (quotedRun quote (text ++ more)).isComplete = false := by
  fun_induction quotedRun quote text with
  | case1 => exact isComplete_quotedRun_of_notMem notBreak unquoted
  | case2 => cases openEnded
  | case3 rest other =>
      rw [List.cons_append, quotedRun.eq_def]
      simp only [if_neg other, if_true]
  | case4 other _ =>
      cases more with
      | nil => simp [quotedRun, other]
      | cons d others =>
          rw [List.singleton_append, quotedRun.eq_def]
          by_cases isBreak : d = '\n'
          · simp [other, isBreak]
          · have rest := isComplete_quotedRun_of_notMem notBreak
              (notMem_takeWhile_tail isBreak unquoted)
            simp [other, isBreak, Run.prepend, rest]
  | case5 rest other _ =>
      rw [List.cons_append, List.cons_append, quotedRun.eq_def]
      simp [other]
  | case6 d rest unbroken other _ inductionHypothesis =>
      rw [List.cons_append, List.cons_append, quotedRun]
      simp only [if_neg other, if_neg unbroken]
      exact inductionHypothesis openEnded
  | case7 c rest other unbroken plain inductionHypothesis =>
      rw [List.cons_append, quotedRun.eq_def]
      simp only [if_neg other, if_neg unbroken, if_neg plain]
      exact inductionHypothesis openEnded

theorem substance?_openQuote {c : Char} (quotes : isQuote c = true) {rest : Text}
    (openEnded : (quotedRun c rest).isComplete = false) : substance? false (c :: rest) = none := by
  refine substance?_of_kind ?_
  rw [firstPiece_quote quotes, ofRun, Run.prepend, openEnded]
  rfl

def StartsBlank (text : Text) : Prop :=
  ∀ c ∈ text.takeWhile (· != '\n'), blank.contains c = true

theorem StartsBlank.respaces {more : Text} (startsBlank : more.StartsBlank) :
    Respaces (· ++ more) := by
  apply respaces_append
  intro d member
  obtain ⟨rest, rfl⟩ := List.head?_eq_some_iff.mp member
  by_cases isBreak : d = '\n'
  · rw [isBreak]
    rfl
  · have inLine : d ∈ List.takeWhile (· != '\n') (d :: rest) := by simp [isBreak]
    rw [Piece.isBreak, startsBlank d inLine, Bool.true_or]

/-- What is read first of a text, whatever blank line follows: a piece of it or a character of
the comment that it begins with, a comment up to the end of the line, or no token. -/
inductive Advance (inComment : Bool) (text : Text) : Prop where
  | piece (piece : Piece) (rest : Text) : rest.length < text.length →
      (∀ more : Text, more.StartsBlank → substance? inComment (text ++ more) =
        piece.prepend? (substance? false (rest ++ more))) → Advance inComment text
  | skip (goesOn : Bool) (rest : Text) : rest.length < text.length →
      (∀ more : Text, more.StartsBlank → substance? inComment (text ++ more) =
        substance? goesOn (rest ++ more)) → Advance inComment text
  | comment : (∀ more : Text, more.StartsBlank → substance? inComment (text ++ more) =
        substance? false (more.dropWhile (· != '\n'))) → Advance inComment text
  | fault : (∀ more : Text, more.StartsBlank → substance? inComment (text ++ more) = none) →
      Advance inComment text

theorem advance_comment (c : Char) (rest : Text) : Advance true (c :: rest) := by
  have sameHead : ∀ more : Text, more.StartsBlank →
      ((rest ++ more).head? = some '/' ↔ rest.head? = some '/') :=
    fun more startsBlank => startsBlank.respaces.head?_eq_some_iff rfl rest
  by_cases closes : c = '*' ∧ rest.head? = some '/'
  · have shorter : rest.tail.length < (c :: rest).length :=
      Nat.lt_succ_of_le (List.length_tail ▸ Nat.sub_le _ _)
    refine .skip false rest.tail shorter fun more startsBlank => ?_
    have tail : (rest ++ more).tail = rest.tail ++ more :=
      startsBlank.respaces.tail_change rfl closes.2
    rw [List.cons_append, substance?_comment_cons,
      if_pos ⟨closes.1, (sameHead more startsBlank).mpr closes.2⟩, tail]
  · refine .skip true rest (by simp) fun more startsBlank => ?_
    rw [List.cons_append, substance?_comment_cons,
      if_neg fun closed => closes ⟨closed.1, (sameHead more startsBlank).mp closed.2⟩]

theorem advance_lineComment (rest : Text) : Advance false ('/' :: '/' :: rest) := by
  by_cases ends : rest.dropWhile (· != '\n') = []
  · refine .comment fun more _ => ?_
    have goesOn : ∀ c ∈ rest, (c != '\n') = true := List.dropWhile_eq_nil_iff.mp ends
    rw [List.cons_append, List.cons_append, substance?_lineComment,
      List.dropWhile_append_of_pos goesOn]
  · have shorter := (List.dropWhile_suffix (· != '\n') (l := rest)).length_le
    refine .skip false (rest.dropWhile (· != '\n')) ?_ fun more _ => ?_
    · simp only [List.length_cons]
      omega
    · rw [List.cons_append, List.cons_append, substance?_lineComment,
        (span_append_of_rest ends more).2]

theorem advance (inComment : Bool) (c : Char) (rest : Text) : Advance inComment (c :: rest) := by
  cases inComment with
  | true => exact advance_comment c rest
  | false =>
      cases beginning c rest with
      | firm isFirm =>
          refine .piece (firstPiece c rest).1 (firstPiece c rest).2 (firstPiece_rest_length c rest)
            fun more startsBlank => ?_
          rw [List.cons_append, substance?_cons, isFirm _ startsBlank.respaces]
      | space space =>
          refine .skip false rest (by simp) fun more _ => ?_
          rw [List.cons_append, substance?_space space]
      | lineComment others slash cut =>
          subst slash cut
          exact advance_lineComment others
      | blockComment others slash cut =>
          subst slash cut
          have shorter : others.length < ('/' :: '*' :: others).length :=
            Nat.lt_succ_of_lt (Nat.lt_succ_self _)
          refine .skip true others shorter fun more _ => ?_
          rw [List.cons_append, List.cons_append, substance?_blockComment]
      | openQuote quotes openEnded =>
          refine .fault fun more startsBlank => ?_
          have notBreak := Respaces.isBreak_of_isQuote quotes
          have unquoted : c ∉ more.takeWhile (· != '\n') := by
            intro inLine
            rw [isBreak, startsBlank c inLine, Bool.true_or] at notBreak
            cases notBreak
          have stays :=
            isComplete_quotedRun_append (Respaces.ne_lineFeed notBreak) openEnded unquoted
          rw [List.cons_append, substance?_openQuote quotes stays]

/-- Nothing is lost of a text if what follows it is changed so that nothing is lost of that, nor of
what stands behind its first line. -/
theorem mem_substance?_append {more other : Text} (startsBlank : more.StartsBlank)
    (otherBlank : other.StartsBlank)
    (keeps : ∀ inComment, ∀ parts ∈ substance? inComment more, parts ∈ substance? inComment other)
    (keepsLines : ∀ parts ∈ substance? false (more.dropWhile (· != '\n')),
      parts ∈ substance? false (other.dropWhile (· != '\n'))) :
    ∀ (front : Text) (inComment : Bool), ∀ parts ∈ substance? inComment (front ++ more),
      parts ∈ substance? inComment (front ++ other)
  | [], inComment, parts, member => keeps inComment parts member
  | c :: rest, inComment, parts, member => by
      cases advance inComment c rest with
      | piece piece behind shorter reads =>
          rw [reads more startsBlank] at member
          rw [reads other otherBlank]
          exact mem_prepend?_of_forall
            (mem_substance?_append startsBlank otherBlank keeps keepsLines behind false) _ parts
            member
      | skip goesOn behind shorter reads =>
          rw [reads more startsBlank] at member
          rw [reads other otherBlank]
          exact mem_substance?_append startsBlank otherBlank keeps keepsLines behind goesOn parts
            member
      | comment reads =>
          rw [reads more startsBlank] at member
          rw [reads other otherBlank]
          exact keepsLines parts member
      | fault reads =>
          rw [reads more startsBlank] at member
          cases member
termination_by front => front.length
decreasing_by all_goals exact shorter

end Text

end YulTree

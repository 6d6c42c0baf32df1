import YulTree.Proofs.Token.Substance

/-!
# Texts within braces

What stands between two braces of a source is cut into pieces as it would be alone, if all these
pieces are tokens, or all that it would be cut into alone.  So its substantial tokens are those
between the braces (`substance_between`).
-/

namespace YulTree

namespace Piece

theorem length_rest_commentRun (text : Text) : (commentRun text).rest.length ≤ text.length := by
  have whole := congrArg List.length (commentRun_append text)
  rw [List.length_append] at whole
  omega

/-- A comment that is open at the end of a text takes up something of what follows. -/
theorem length_rest_commentRun_append {text more : Text}
    (openEnded : (commentRun text).isComplete = false) (nonempty : more ≠ []) :
    (commentRun (text ++ more)).rest.length < more.length := by
  fun_induction commentRun text with
  | case1 =>
      obtain ⟨d, others, rfl⟩ := List.exists_cons_of_ne_nil nonempty
      rw [List.nil_append, commentRun]
      split
      · simp only [List.length_cons, List.length_tail]
        omega
      · exact Nat.lt_succ_of_le (length_rest_commentRun others)
  | case2 => cases openEnded
  | case3 c rest stays inductionHypothesis =>
      rw [List.cons_append, commentRun]
      split
      · next closes =>
          cases rest with
          | nil =>
              obtain ⟨d, others, rfl⟩ := List.exists_cons_of_ne_nil nonempty
              simp
          | cons d others => exact absurd closes stays
      · exact inductionHypothesis openEnded

theorem length_rest_quotedRun {quote : Char} {text : Text}
    (closed : (quotedRun quote text).isComplete = true) :
    (quotedRun quote text).rest.length < text.length := by
  fun_induction quotedRun quote text with
  | case1 | case3 | case4 | case5 => cases closed
  | case2 rest => exact Nat.lt_succ_self _
  | case6 d rest unbroken other _ inductionHypothesis =>
      exact Nat.lt_succ_of_lt (Nat.lt_succ_of_lt (inductionHypothesis closed))
  | case7 c rest other unbroken plain inductionHypothesis =>
      exact Nat.lt_succ_of_lt (inductionHypothesis closed)

/-- A literal that is open at the end of a text and closed behind it takes up something of what
follows. -/
theorem length_rest_quotedRun_append {quote : Char} {text more : Text}
    (openEnded : (quotedRun quote text).isComplete = false)
    (closed : (quotedRun quote (text ++ more)).isComplete = true) :
    (quotedRun quote (text ++ more)).rest.length < more.length := by
  fun_induction quotedRun quote text with
  | case1 => exact length_rest_quotedRun closed
  | case2 => cases openEnded
  | case3 rest other =>
      rw [List.cons_append, quotedRun.eq_def] at closed
      simp [other] at closed
  | case4 other _ =>
      cases more with
      | nil => simp [quotedRun, other] at closed
      | cons d others =>
          rw [List.singleton_append, quotedRun.eq_def] at closed ⊢
          simp only [if_neg other] at closed ⊢
          by_cases isBreak : d = '\n'
          · simp [isBreak] at closed
          · simp only [if_neg isBreak] at closed ⊢
            exact Nat.lt_succ_of_lt (length_rest_quotedRun closed)
  | case5 rest other _ =>
      rw [List.cons_append, List.cons_append, quotedRun.eq_def] at closed
      simp [other] at closed
  | case6 d rest unbroken other _ inductionHypothesis =>
      rw [List.cons_append, List.cons_append, quotedRun] at closed ⊢
      simp only [if_neg other, if_neg unbroken] at closed ⊢
      exact inductionHypothesis openEnded closed
  | case7 c rest other unbroken plain inductionHypothesis =>
      rw [List.cons_append, quotedRun.eq_def] at closed ⊢
      simp only [if_neg other, if_neg unbroken, if_neg plain] at closed ⊢
      exact inductionHypothesis openEnded closed

/-- What passes a test in front of a character that fails it. -/
theorem span_append_of_stop {test : Char → Bool} {d : Char} (stops : test d = false)
    (text more : Text) :
    (text ++ d :: more).takeWhile test = text.takeWhile test ∧
      (text ++ d :: more).dropWhile test = text.dropWhile test ++ d :: more := by
  by_cases ends : text.dropWhile test = []
  · have goesOn := List.dropWhile_eq_nil_iff.mp ends
    rw [ends, List.takeWhile_eq_self_iff.mpr goesOn]
    exact Lexeme.span_of_ends goesOn (Lexeme.ends_cons stops more)
  · exact span_append_of_rest ends (d :: more)

theorem lineCommentPiece_of_closed {text rest remaining : Text} {piece : Piece}
    (cut : lineCommentPiece (text ++ '\x7d' :: rest) = (piece, remaining ++ '\x7d' :: rest)) :
    lineCommentPiece text = (piece, remaining) := by
  by_cases ends : text.dropWhile (· != '\n') = []
  · have goesOn : ∀ d ∈ text ++ ['\x7d'], (d != '\n') = true := by
      intro d member
      rcases List.mem_append.mp member with inside | last
      · exact List.dropWhile_eq_nil_iff.mp ends d inside
      · rw [List.mem_singleton.mp last]
        rfl
    have left : (text ++ '\x7d' :: rest).dropWhile (· != '\n') = remaining ++ '\x7d' :: rest :=
      congrArg Prod.snd cut
    rw [List.append_cons text, List.dropWhile_append_of_pos goesOn] at left
    have shorter := (List.dropWhile_suffix (· != '\n') (l := rest)).length_le
    rw [left, List.length_append, List.length_cons] at shorter
    omega
  · obtain ⟨taken, left⟩ := span_append_of_rest ends ('\x7d' :: rest)
    have whole : lineCommentPiece (text ++ '\x7d' :: rest) =
        ((lineCommentPiece text).1, (lineCommentPiece text).2 ++ '\x7d' :: rest) := by
      rw [lineCommentPiece, taken, left]
      rfl
    obtain ⟨rfl, same⟩ := Prod.mk.inj (whole.symm.trans cut)
    rw [← List.append_cancel_right same]

theorem commentRun_of_closed {text rest remaining : Text}
    (left : (commentRun (text ++ '\x7d' :: rest)).rest = remaining ++ '\x7d' :: rest) :
    (commentRun text).isComplete = true := by
  cases closed : (commentRun text).isComplete with
  | true => rfl
  | false =>
      have shorter := length_rest_commentRun_append closed (List.cons_ne_nil '\x7d' rest)
      rw [left, List.length_append] at shorter
      omega

theorem quotedRun_of_closed {quote : Char} {text rest remaining : Text}
    (closed : (quotedRun quote (text ++ '\x7d' :: rest)).isComplete = true)
    (left : (quotedRun quote (text ++ '\x7d' :: rest)).rest = remaining ++ '\x7d' :: rest) :
    (quotedRun quote text).isComplete = true := by
  cases openEnded : (quotedRun quote text).isComplete with
  | true => rfl
  | false =>
      have shorter := length_rest_quotedRun_append openEnded closed
      rw [left, List.length_append] at shorter
      omega

/-- A piece that ends in front of a closing brace is a piece of the text in front of the brace, if
one of the two is a token. -/
theorem firstPiece_of_closed {c : Char} {text rest remaining : Text} {piece : Piece}
    (cut : firstPiece c (text ++ '\x7d' :: rest) = (piece, remaining ++ '\x7d' :: rest))
    (isToken : piece.kind ≠ none ∨ (firstPiece c text).1.kind ≠ none) :
    firstPiece c text = (piece, remaining) := by
  cases beginning c text with
  | firm isFirm =>
      have respaces : Text.Respaces (· ++ '\x7d' :: rest) := by
        apply Text.respaces_append
        intro d member
        obtain rfl := Option.mem_some.mp member
        rfl
      rw [isFirm _ respaces] at cut
      obtain ⟨rfl, same⟩ := Prod.mk.inj cut
      rw [← List.append_cancel_right same]
  | space space =>
      have stops : isSpace '\x7d' = false := rfl
      obtain ⟨taken, left⟩ := span_append_of_stop stops text rest
      rw [Lexeme.firstPiece_space space, taken, left] at cut
      obtain ⟨rfl, same⟩ := Prod.mk.inj cut
      rw [Lexeme.firstPiece_space space, List.append_cancel_right same]
  | lineComment others slash comment =>
      subst slash comment
      exact lineCommentPiece_of_closed cut
  | blockComment others slash comment =>
      subst slash comment
      have first : ∀ more, firstPiece '/' ('*' :: more) =
          ofRun .blockComment ((commentRun more).prepend "/*") := fun _ => rfl
      rw [List.cons_append, first] at cut
      have closed := commentRun_of_closed (Prod.mk.inj cut).2
      rw [commentRun_of_isComplete closed] at cut
      obtain ⟨rfl, same⟩ := Prod.mk.inj cut
      rw [first, ← List.append_cancel_right same, ofRun, Run.prepend, Run.prepend, closed]
  | openQuote quotes openEnded =>
      have isNone : (firstPiece c text).1.kind = none := by
        rw [firstPiece_quote quotes, ofRun, Run.prepend, openEnded]
        rfl
      have pieceIsToken := isToken.resolve_right (not_not_intro isNone)
      rw [firstPiece_quote quotes] at cut
      obtain ⟨rfl, left⟩ := Prod.mk.inj cut
      have closed : (quotedRun c (text ++ '\x7d' :: rest)).isComplete = true := by
        by_contra notClosed
        exact pieceIsToken (if_neg notClosed)
      rw [quotedRun_of_closed closed left] at openEnded
      cases openEnded

theorem isSome_prepend? {piece : Piece} {behind : Option (List (TokenKind × Text))}
    (found : (piece.prepend? behind).isSome = true) : piece.kind ≠ none ∧ behind.isSome = true := by
  unfold prepend? at found
  cases kind : piece.kind with
  | none =>
      rw [kind] at found
      cases found
  | some own =>
      simp only [kind] at found
      refine ⟨Option.some_ne_none own, ?_⟩
      split at found
      · rw [Option.isSome_map] at found
        exact found
      · exact found

/-- The pieces in front of a closing brace are those of the text in front of it, if all of the ones
or all of the others are tokens. -/
theorem all_of_closed {pieces behind : List Piece} {body rest : Text}
    (cut : all (body ++ '\x7d' :: rest) = pieces ++ behind)
    (texts : (pieces.map Piece.text).flatten = body)
    (tokens : (substance? pieces).isSome = true ∨ (substance? (all body)).isSome = true) :
    all body = pieces := by
  induction pieces generalizing body with
  | nil =>
      obtain rfl : body = [] := texts.symm
      rw [all]
  | cons piece pieces inductionHypothesis =>
      rw [List.map_cons, List.flatten_cons] at texts
      cases body with
      | nil =>
          have head := firstPiece_head? '\x7d' rest
          rw [List.nil_append, all] at cut
          rw [(List.cons.inj cut).1, (List.append_eq_nil_iff.mp texts).1] at head
          cases head
      | cons c text =>
          have whole := firstPiece_append c (text ++ '\x7d' :: rest)
          rw [List.cons_append, all] at cut
          obtain ⟨first, behindFirst⟩ := List.cons.inj cut
          rw [first, ← List.cons_append, ← texts, List.append_assoc] at whole
          have left := List.append_cancel_left whole
          rw [left] at behindFirst
          rw [all] at tokens ⊢
          have isToken : piece.kind ≠ none ∨ (firstPiece c text).1.kind ≠ none :=
            tokens.imp (fun found => (isSome_prepend? found).1)
              fun found => (isSome_prepend? found).1
          have single := firstPiece_of_closed (Prod.ext first left) isToken
          rw [single] at tokens ⊢
          refine congrArg (piece :: ·) (inductionHypothesis behindFirst rfl ?_)
          exact tokens.imp (fun found => (isSome_prepend? found).2)
            fun found => (isSome_prepend? found).2

/-- A closing brace is written as one. -/
theorem text_of_closeBrace {c : Char} {rest : Text}
    (closes : (firstPiece c rest).1.kind = some .closeBrace) :
    (firstPiece c rest).1.text = ['\x7d'] := by
  have single : (firstPiece c rest).1.text = [c] := text_of_brace (by rw [closes]; rfl)
  have skips := skips_firstPiece c rest
  rw [Skips, marks, single, closes] at skips
  have seen : Mode.plain.mark c = some .closeBrace := (List.cons.inj skips).1
  rcases Mode.eq_of_brace? (Mode.mark_eq_some seen).2 with rfl | rfl
  · cases seen
  · exact single

end Piece

namespace Token

open Piece

/-- Pieces that are all tokens are the tokens that they make up. -/
theorem substance_merge {pieces : List Piece} {parts : List (TokenKind × Text)}
    (found : substance? pieces = some parts) : substance (merge pieces) = parts := by
  induction pieces generalizing parts with
  | nil => exact Option.some.inj found
  | cons piece rest inductionHypothesis =>
      obtain ⟨kind, text⟩ := piece
      cases kind with
      | none => cases found
      | some kind =>
          rw [merge, substance_cons]
          rw [substance?_token] at found
          split at found
          · next isSubstantial =>
              obtain ⟨others, restFound, rfl⟩ := Option.map_eq_some_iff.mp found
              rw [if_pos isSubstantial, inductionHypothesis restFound]
          · next notSubstantial =>
              rw [if_neg notSubstantial]
              exact inductionHypothesis found

/-- Where there is no garbage, every piece is a token. -/
theorem isSome_substance? {pieces : List Piece}
    (clean : ∀ part ∈ merge pieces, part.1 ≠ .garbage) : (substance? pieces).isSome = true := by
  induction pieces with
  | nil => rfl
  | cons piece rest inductionHypothesis =>
      obtain ⟨kind, text⟩ := piece
      cases kind with
      | none =>
          obtain ⟨more, others, merged, -⟩ := merge_cons_none text rest
          rw [merged] at clean
          exact absurd rfl (clean _ List.mem_cons_self)
      | some kind =>
          rw [merge] at clean
          have restFound := inductionHypothesis fun part member =>
            clean part (List.mem_cons_of_mem _ member)
          rw [substance?_token]
          split
          · rw [Option.isSome_map]
            exact restFound
          · exact restFound

/-- Parts that are not empty are told by the text that they make up. -/
theorem eq_of_flatten_eq {first second rest others : List (TokenKind × Text)}
    (nonempty : ∀ part ∈ first ++ rest, part.2 ≠ []) (same : first ++ rest = second ++ others)
    (texts : (first.map Prod.snd).flatten = (second.map Prod.snd).flatten) : first = second := by
  have nothing : ∀ middle : List (TokenKind × Text), (∀ part ∈ middle, part.2 ≠ []) →
      (middle.map Prod.snd).flatten = [] → middle = [] := by
    intro middle middleNonempty empty
    cases middle with
    | nil => rfl
    | cons part _ =>
        exact absurd (List.append_eq_nil_iff.mp empty).1
          (middleNonempty part List.mem_cons_self)
  rcases List.append_eq_append_iff.mp same with ⟨middle, rfl, rfl⟩ | ⟨middle, rfl, rfl⟩
  · rw [List.map_append, List.flatten_append, List.self_eq_append_right] at texts
    rw [nothing middle (fun part member => nonempty part (by simp [member])) texts,
      List.append_nil]
  · rw [List.map_append, List.flatten_append, List.append_right_eq_self] at texts
    rw [nothing middle (fun part member => nonempty part (by simp [member])) texts,
      List.append_nil]

end Token

namespace Lexeme

/-- The substantial tokens of a row of lexemes. -/
def substance (row : List Lexeme) : List (TokenKind × Text) :=
  Token.substance (row.map fun lexeme => (lexeme.kind, lexeme.token.text))

theorem isSubstantial_of_isTrivia {kind : TokenKind} (isTrivia : kind.isTrivia = true) :
    kind.isSubstantial = false := by
  cases kind <;> first | rfl | cases isTrivia

theorem substance_onward (parts : List (TokenKind × Text)) (lead : Text) (start : Nat) :
    substance (onward lead start parts) = Token.substance parts := by
  induction parts generalizing lead start with
  | nil => rfl
  | cons part rest inductionHypothesis =>
      obtain ⟨kind, text⟩ := part
      cases isTrivia : kind.isTrivia with
      | true =>
          rw [onward_trivia isTrivia, inductionHypothesis, Token.substance_cons,
            isSubstantial_of_isTrivia isTrivia]
          rfl
      | false =>
          rw [onward_token isTrivia, substance, List.map_cons, Token.substance_cons,
            Token.substance_cons, ← inductionHypothesis [] (start + text.byteSize)]
          rfl

theorem substance_all {text : Text} {parts : List (TokenKind × Text)}
    (found : text.substance? false = some parts) : substance (all text) = parts := by
  rw [all_eq_ahead, ahead, substance_onward]
  exact Token.substance_merge found

theorem kinds_onward (parts : List (TokenKind × Text)) (lead : Text) (start : Nat) :
    (onward lead start parts).map kind =
      (parts.map Prod.fst).filter fun kind => !kind.isTrivia := by
  induction parts generalizing lead start with
  | nil => rfl
  | cons part rest inductionHypothesis =>
      obtain ⟨kind, text⟩ := part
      cases isTrivia : kind.isTrivia with
      | true =>
          rw [onward_trivia isTrivia, inductionHypothesis, List.map_cons,
            List.filter_cons_of_neg (by simp [isTrivia])]
      | false =>
          rw [onward_token isTrivia, List.map_cons, inductionHypothesis, List.map_cons,
            List.filter_cons_of_pos (by simp [isTrivia])]
          rfl

section

variable {source : Text} {before inner after : List Lexeme} {opening closing : Lexeme}

/-- The parts between two braces of a source, and what they and those behind them are cut from. -/
theorem exists_between (row : all source = before ++ opening :: (inner ++ closing :: after))
    (isOpening : opening.kind = .openBrace) (isClosing : closing.kind = .closeBrace)
    (balanced : Balanced (inner.map kind)) :
    ∃ between rest, Token.merge (Piece.all (text inner ++ closing.lead ++ '\x7d' :: rest)) =
        between ++ (.closeBrace, ['\x7d']) :: Token.merge (Piece.all rest) ∧
      (between.map Prod.snd).flatten = text inner ++ closing.lead ∧
      inner = onward [] opening.token.stop between ∧
      (text inner ++ closing.lead).IsEnclosed := by
  obtain ⟨front, behind, parts, -, -, -, innerRow⟩ := onward_eq_append row
  obtain ⟨between, back, rfl, texts, -, kinds, -⟩ := onward_eq_append innerRow.symm
  rw [List.nil_append] at texts
  have member : closing ∈ all source := by
    rw [row]
    simp
  obtain ⟨c, others, pieceEq⟩ := exists_firstPiece member (by rw [isClosing]; decide)
  have closingText : closing.token.text = ['\x7d'] := by
    have written := @Piece.text_of_closeBrace c others
    rw [pieceEq, isClosing] at written
    exact written rfl
  rw [isOpening, isClosing, closingText] at parts
  have enclosed : (text inner ++ closing.lead).IsEnclosed := by
    have balancedBetween : Balanced (between.map Prod.fst) := by
      rw [← Balanced.filter_iff, ← kinds]
      exact balanced
    rw [← texts]
    exact Token.isEnclosed_of_merge front parts balancedBetween
  rw [List.append_cons] at parts
  have behindOpening := Token.merge_all_behind parts
  rw [List.map_append, List.flatten_append, texts, List.map_cons, List.flatten_cons]
    at behindOpening
  have behindClosing :=
    Token.merge_all_behind (behindOpening.symm.trans (List.append_cons between _ back))
  refine ⟨between, (back.map Prod.snd).flatten, ?_, texts, ?_, enclosed⟩
  · rw [← behindClosing, behindOpening]
    rfl
  · obtain ⟨trailing, cut⟩ := onward_append between [] opening.token.stop
    have sameLength : inner.length = (onward [] opening.token.stop between).length := by
      have lengths :=
        congrArg List.length (kinds.trans (kinds_onward between [] opening.token.stop).symm)
      rw [List.length_map, List.length_map] at lengths
      exact lengths
    rw [cut] at innerRow
    exact (List.append_inj innerRow sameLength).1

/-- Between two braces stand the tokens of the text between them, if there is no garbage in place
or none in the text alone. -/
theorem substance_between (row : all source = before ++ opening :: (inner ++ closing :: after))
    (isOpening : opening.kind = .openBrace) (isClosing : closing.kind = .closeBrace)
    (balanced : Balanced (inner.map kind)) :
    ((∀ lexeme ∈ inner, lexeme.kind ≠ .garbage) →
        ((text inner ++ closing.lead).substance? false).isSome = true) ∧
      (((text inner ++ closing.lead).substance? false).isSome = true →
        (text inner ++ closing.lead).substance? false = some (substance inner)) := by
  obtain ⟨between, rest, merged, texts, innerEq, enclosed⟩ :=
    exists_between row isOpening isClosing balanced
  generalize text inner ++ closing.lead = body at merged texts enclosed ⊢
  obtain ⟨pieces, cut, pieceTexts, -⟩ := Piece.all_cut rest body enclosed.visible
  have sameParts : between = Token.merge pieces := by
    have nonempty : ∀ part ∈ Token.merge (Piece.all (body ++ '\x7d' :: rest)), part.2 ≠ [] :=
      fun _ => Token.text_ne_nil_of_mem_merge (Piece.cuttable_all _)
    have cutParts : Token.merge (Piece.all (body ++ '\x7d' :: rest)) =
        Token.merge pieces ++ (.closeBrace, ['\x7d']) :: Token.merge (Piece.all rest) := by
      rw [cut, Token.merge_append (by decide)]
    rw [merged] at nonempty
    refine Token.eq_of_flatten_eq nonempty (merged.symm.trans cutParts) ?_
    rw [texts, Token.flatten_merge, pieceTexts]
  constructor
  · intro clean
    have cleanParts : ∀ part ∈ Token.merge pieces, part.1 ≠ .garbage := by
      intro part member isGarbage
      have inKinds : TokenKind.garbage ∈ inner.map kind := by
        rw [innerEq, kinds_onward, sameParts]
        exact List.mem_filter.mpr ⟨isGarbage ▸ List.mem_map_of_mem member, rfl⟩
      obtain ⟨lexeme, lexemeMember, lexemeKind⟩ := List.mem_map.mp inKinds
      exact clean lexeme lexemeMember lexemeKind
    have found := Token.isSome_substance? cleanParts
    rw [Text.substance?, Piece.all_of_closed cut pieceTexts (.inl found)]
    exact found
  · intro found
    have same := Piece.all_of_closed cut pieceTexts (.inr found)
    obtain ⟨parts, isParts⟩ := Option.isSome_iff_exists.mp found
    have piecesFound : Piece.substance? pieces = some parts := by
      rw [← same]
      exact isParts
    rw [isParts, innerEq, substance_onward, sameParts, Token.substance_merge piecesFound]

end

end Lexeme

end YulTree

import YulTree.Proofs.Token.Row
import YulTree.Reader.Step

/-!
# The shapes of tokens

The first character of a piece says of which kinds it can be (`kind_mem_kinds`).  A hexadecimal
literal holds digits and underscores only, so its digits denote bytes exactly if they come in pairs
(`ofHex?_isSome_iff`).
-/

namespace YulTree

namespace Piece

/-- The kinds of pieces that can begin in one way; `none` is for what is no token. -/
def Initial.kinds : Initial → List (Option TokenKind)
  | .openBrace => [some .openBrace]
  | .closeBrace => [some .closeBrace]
  | .mark | .colon => [some .punctuation]
  | .dash => [some .punctuation, none]
  | .slash => [some .lineComment, some .pragma, some .blockComment, none]
  | .quote => [some .stringLiteral, none]
  | .space => [some .whitespace]
  | .digit => [some .number]
  | .letter =>
      [some .objectKeyword, some .codeKeyword, some .dataKeyword, some .hexLiteral,
        some .identifier]
  | .other => [none]

theorem kind_mem_kinds (c : Char) (rest : Text) :
    (firstPiece c rest).1.kind ∈ (Initial.ofChar c).kinds := by
  unfold firstPiece
  cases Initial.ofChar c with
  | openBrace | closeBrace | mark | space | digit | other => exact List.mem_cons_self
  | colon =>
      simp only [colonPiece]
      split <;> simp [Initial.kinds]
  | dash =>
      simp only [dashPiece]
      split <;> simp [Initial.kinds]
  | slash =>
      simp only [slashPiece, lineCommentPiece, ofRun]
      split
      · simp only [Initial.kinds]
        split <;> simp
      · split
        · simp only [Initial.kinds]
          split <;> simp
        · simp [Initial.kinds]
  | quote =>
      simp only [ofRun, Initial.kinds]
      split <;> simp
  | letter =>
      simp only [wordPiece]
      split
      · split <;> simp [Initial.kinds]
      · rcases wordKind_cases (c :: rest.takeWhile isWordRest) with kind | kind | kind | kind
          <;> simp [Initial.kinds, kind]

theorem hexLiteral_shape {c : Char} {rest : Text}
    (isHex : (firstPiece c rest).1.kind = some .hexLiteral) :
    ∃ quote digits, isQuote quote = true ∧
      (firstPiece c rest).1.text = ("hex" : Text) ++ quote :: (digits ++ [quote]) ∧
      ∀ d ∈ digits, isHexRest d = true := by
  have possible := kind_mem_kinds c rest
  rw [isHex] at possible
  unfold firstPiece at isHex ⊢
  cases initial : Initial.ofChar c with
  | letter =>
      simp only [initial, wordPiece] at isHex ⊢
      split at isHex
      · next isWord =>
          rw [if_pos isWord]
          split at isHex
          · next digits after found =>
              cases afterWord : rest.dropWhile isWordRest with
              | nil =>
                  rw [afterWord] at found
                  cases found
              | cons quote others =>
                  rw [afterWord] at found
                  simp only [hexDigits?] at found
                  split at found
                  · next closes =>
                      simp only [Option.some.injEq, Prod.mk.injEq] at found
                      obtain ⟨rfl, -⟩ := found
                      rw [isWord]
                      exact ⟨quote, _, (Bool.and_eq_true _ _ ▸ closes).1, rfl,
                        List.all_eq_true.mp List.all_takeWhile⟩
                  · cases found
          · cases isHex
      · simp only [Option.some.injEq] at isHex
        rcases wordKind_cases (c :: rest.takeWhile isWordRest) with kind | kind | kind | kind
          <;> rw [kind] at isHex <;> cases isHex
  | _ =>
      rw [initial] at possible
      simp [Initial.kinds] at possible

end Piece

theorem Piece.exists_firstPiece {text : Text} {piece : Piece} (member : piece ∈ all text) :
    ∃ c rest, piece = (firstPiece c rest).1 := by
  fun_induction all text with
  | case1 => cases member
  | case2 c rest inductionHypothesis =>
      rcases List.mem_cons.mp member with rfl | later
      · exact ⟨c, rest, rfl⟩
      · exact inductionHypothesis later

/-- Tokens other than garbage are pieces. -/
theorem Token.mem_of_mem_merge {pieces : List Piece} {part : TokenKind × Text}
    (notGarbage : part.1 ≠ .garbage) (member : part ∈ merge pieces) :
    ⟨some part.1, part.2⟩ ∈ pieces := by
  fun_induction merge pieces with
  | case1 => cases member
  | case2 kind text rest inductionHypothesis =>
      rcases List.mem_cons.mp member with rfl | later
      · exact List.mem_cons_self
      · exact List.mem_cons_of_mem _ (inductionHypothesis later)
  | case3 text rest more others merged inductionHypothesis =>
      rcases List.mem_cons.mp member with rfl | later
      · exact absurd rfl notGarbage
      · exact List.mem_cons_of_mem _
          (inductionHypothesis (merged ▸ List.mem_cons_of_mem _ later))
  | case4 text rest _ inductionHypothesis =>
      rcases List.mem_cons.mp member with rfl | later
      · exact absurd rfl notGarbage
      · exact List.mem_cons_of_mem _ (inductionHypothesis later)

theorem Lexeme.exists_firstPiece {source : Text} {lexeme : Lexeme}
    (member : lexeme ∈ all source) (notGarbage : lexeme.kind ≠ .garbage) :
    ∃ c rest, (Piece.firstPiece c rest).1 = ⟨some lexeme.kind, lexeme.token.text⟩ := by
  obtain ⟨before, after, row⟩ := List.append_of_mem member
  obtain ⟨front, back, parts, -⟩ := onward_eq_append row
  have isPart : (lexeme.kind, lexeme.token.text) ∈ Token.merge (Piece.all source) := by
    rw [parts]
    exact List.mem_append_right front List.mem_cons_self
  obtain ⟨c, rest, pieceEq⟩ :=
    Piece.exists_firstPiece (Token.mem_of_mem_merge notGarbage isPart)
  exact ⟨c, rest, pieceEq.symm⟩

theorem Token.exists_firstPiece {source : Text} {token : Token} (member : token ∈ scan source)
    (notTrivia : token.kind.isTrivia = false) (notGarbage : token.kind ≠ .garbage) :
    ∃ c rest, (Piece.firstPiece c rest).1 = ⟨some token.kind, token.text⟩ := by
  have isSignificant := mem_significant_iff.mpr ⟨member, notTrivia⟩
  rw [← Lexeme.tokens_all] at isSignificant
  obtain ⟨lexeme, listed, rfl⟩ := List.mem_map.mp isSignificant
  exact Lexeme.exists_firstPiece listed notGarbage

theorem Token.exists_digits_of_hexLiteral {source : Text} {token : Token}
    (member : token ∈ scan source) (isHex : token.kind = .hexLiteral) :
    ∃ quote digits, Piece.isQuote quote = true ∧
      token.text = ("hex" : Text) ++ quote :: (digits ++ [quote]) ∧
      ∀ c ∈ digits, Piece.isHexRest c = true := by
  obtain ⟨c, rest, piece⟩ := exists_firstPiece member (by rw [isHex]; rfl) (by rw [isHex]; decide)
  obtain ⟨quote, digits, quotes, text, hexadecimal⟩ :=
    Piece.hexLiteral_shape (by rw [piece, isHex])
  rw [piece] at text
  exact ⟨quote, digits, quotes, text, hexadecimal⟩

/-- The digits of a hexadecimal literal have values. -/
theorem Lexeme.hexDigitValue?_isSome {source : Text} {lexeme : Lexeme}
    (member : lexeme ∈ all source) (isHex : lexeme.kind = .hexLiteral) :
    ∀ c ∈ Reader.hexDigits lexeme.token.text, (Text.hexDigitValue? c).isSome = true := by
  obtain ⟨quote, digits, -, textEq, hexadecimal⟩ :=
    Token.exists_digits_of_hexLiteral (token_mem_scan member) isHex
  have digitsEq : Reader.hexDigits lexeme.token.text = digits.filter (· != '_') := by
    have inner : Text.interior (quote :: (digits ++ [quote])) = digits := by
      simp [Text.interior]
    rw [textEq, Reader.hexDigits]
    exact congrArg (List.filter (· != '_')) inner
  intro d isDigit
  rw [digitsEq] at isDigit
  obtain ⟨inDigits, noUnderscore⟩ := List.mem_filter.mp isDigit
  have passes := hexadecimal d inDigits
  simp only [Piece.isHexRest, Bool.or_eq_true, Bool.and_eq_true, decide_eq_true_eq,
    beq_iff_eq] at passes
  simp only [bne_iff_ne, ne_eq] at noUnderscore
  unfold Text.hexDigitValue?
  rcases passes with ((decimal | lower) | upper) | underscore
  · have bounds : '0' ≤ d ∧ d ≤ '9' := by
      simpa [Char.isDigit, Char.le_def] using decimal
    rw [if_pos bounds]
    rfl
  · split
    · rfl
    · rfl
  · split
    · rfl
    · split
      · rfl
      · rfl
  · exact absurd underscore noUnderscore

/-- Digits with values make bytes exactly if they come in pairs. -/
theorem Bytes.ofHex?_isSome_iff : ∀ {digits : Text},
    (∀ c ∈ digits, (Text.hexDigitValue? c).isSome = true) →
      ((ofHex? digits).isSome = true ↔ digits.length % 2 = 0)
  | [], _ => by simp [ofHex?]
  | [_], _ => by simp [ofHex?]
  | high :: low :: rest, valued => by
      obtain ⟨highValue, highEq⟩ := Option.isSome_iff_exists.mp (valued high (by simp))
      obtain ⟨lowValue, lowEq⟩ := Option.isSome_iff_exists.mp (valued low (by simp))
      have restIff : (ofHex? rest).isSome = true ↔ rest.length % 2 = 0 :=
        ofHex?_isSome_iff fun c member => valued c (by simp [member])
      have sameParity : (high :: low :: rest).length % 2 = rest.length % 2 := by
        simp only [List.length_cons]
        omega
      rw [sameParity, ← restIff, ofHex?, byteOfHex?, highEq, lowEq]
      cases ofHex? rest <;> simp

end YulTree

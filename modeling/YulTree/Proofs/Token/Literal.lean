import YulTree.Proofs.Text.Escape
import YulTree.Proofs.Token.Respaced
import YulTree.Proofs.Token.Shape

/-!
# Literals as tokens

A text that is written as a literal is cut off as one token, of visible characters only, and is read
back from it (`scan_encode`).  Every string literal of a source stands between two quotation marks,
and its escapes say what it gives (`read_stringLiteral`).
-/

namespace YulTree

namespace Text.Quoted

theorem visible_of_mem_hexOfByte {byte : UInt8} {d : Char} (member : d ∈ Bytes.hexOfByte byte) :
    0x20 ≤ d.toNat ∧ d.toNat ≠ 0x7f := by
  have checked : ∀ m : Fin 16, 0x20 ≤ (Nat.digitChar m.val).toNat ∧
      (Nat.digitChar m.val).toNat ≠ 0x7f := by
    decide
  have bound := byte.toNat_lt
  simp only [Bytes.hexOfByte, List.mem_cons, List.not_mem_nil, or_false] at member
  rcases member with rfl | rfl
  · exact checked ⟨byte.toNat / 16, by omega⟩
  · exact checked ⟨byte.toNat % 16, Nat.mod_lt _ (by decide)⟩

/-- Control characters are written as escapes. -/
theorem visible_of_mem_encodeChar {c d : Char} (member : d ∈ encodeChar c) :
    0x20 ≤ d.toNat ∧ d.toNat ≠ 0x7f := by
  have visibleMarks : ∀ entry ∈ plainMarks, 0x20 ≤ entry.1.toNat ∧ entry.1.toNat ≠ 0x7f := by
    decide
  have backslash : 0x20 ≤ '\\'.toNat ∧ '\\'.toNat ≠ 0x7f := by decide
  rcases encodeChar_cases c with ⟨mark, byte, written, -, denoted, -⟩ | ⟨byte, written, -⟩ |
    ⟨written, -, -, -, visible⟩
  · rw [written, List.mem_cons, List.mem_singleton] at member
    rcases member with rfl | rfl
    · exact backslash
    · exact visibleMarks _ (mem_plainMarks_iff.mpr denoted)
  · rw [written, List.mem_cons, List.mem_cons] at member
    rcases member with rfl | rfl | isDigit
    · exact backslash
    · decide
    · exact visible_of_mem_hexOfByte isDigit
  · rw [written, List.mem_singleton] at member
    rw [member]
    exact visible

/-- A written literal has visible characters only. -/
theorem visible_of_mem_encode {text : Text} {c : Char} (member : c ∈ encode text) :
    0x20 ≤ c.toNat ∧ c.toNat ≠ 0x7f := by
  have quote : 0x20 ≤ '"'.toNat ∧ '"'.toNat ≠ 0x7f := by decide
  rw [encode, List.mem_cons, List.mem_append, List.mem_singleton] at member
  rcases member with rfl | inner | rfl
  · exact quote
  · obtain ⟨d, -, written⟩ := List.mem_flatMap.mp inner
    exact visible_of_mem_encodeChar written
  · exact quote

end Text.Quoted

namespace Token

/-- A text that is written as a literal is one token, whatever follows it, and is read from it. -/
theorem scan_encode (text rest : Text) :
    scan (Text.Quoted.encode text ++ rest) =
        ⟨.stringLiteral, Text.Quoted.encode text, 0⟩ ::
          (scan rest).map (moved (Text.Quoted.encode text).byteSize) ∧
      Text.Quoted.decodeLiteral (Text.Quoted.encode text) = .ok text.toBytes ∧
      ∀ c ∈ Text.Quoted.encode text, 0x20 ≤ c.toNat ∧ c.toNat ≠ 0x7f := by
  refine ⟨?_, Text.Quoted.decodeLiteral_encode text, ?_⟩
  · obtain ⟨inner, whole, cut⟩ := Lexeme.firstPiece_encode text rest
    rw [whole]
    exact scan_of_cut cut
  · intro c member
    exact Text.Quoted.visible_of_mem_encode member

end Token

namespace Piece

theorem exists_inner_of_quotedRun {quote : Char} {text : Text}
    (closed : (quotedRun quote text).isComplete = true) :
    ∃ inner, (quotedRun quote text).taken = inner ++ [quote] := by
  fun_induction quotedRun quote text with
  | case1 | case3 | case4 | case5 => cases closed
  | case2 rest => exact ⟨[], rfl⟩
  | case6 d rest unbroken other _ inductionHypothesis =>
      obtain ⟨inner, taken⟩ := inductionHypothesis closed
      exact ⟨'\\' :: d :: inner, congrArg (['\\', d] ++ ·) taken⟩
  | case7 c rest other unbroken plain inductionHypothesis =>
      obtain ⟨inner, taken⟩ := inductionHypothesis closed
      exact ⟨c :: inner, congrArg ([c] ++ ·) taken⟩

theorem stringLiteral_shape {c : Char} {rest : Text}
    (isString : (firstPiece c rest).1.kind = some .stringLiteral) :
    isQuote c = true ∧ ∃ inner, (firstPiece c rest).1.text = c :: (inner ++ [c]) := by
  have possible := kind_mem_kinds c rest
  rw [isString] at possible
  cases initial : Initial.ofChar c with
  | quote =>
      have quotes := Initial.of_ofChar_eq.1 initial
      rw [firstPiece_quote quotes] at isString ⊢
      cases closed : (quotedRun c rest).isComplete with
      | false =>
          simp only [ofRun, Run.prepend, closed] at isString
          cases isString
      | true =>
          obtain ⟨inner, taken⟩ := exists_inner_of_quotedRun closed
          exact ⟨quotes, inner, congrArg ([c] ++ ·) taken⟩
  | _ =>
      rw [initial] at possible
      simp [Initial.kinds] at possible

end Piece

namespace Token

open Text Text.Quoted

theorem exists_inner_of_stringLiteral {source : Text} {token : Token}
    (member : token ∈ scan source) (isString : token.kind = .stringLiteral) :
    ∃ quote inner, Piece.isQuote quote = true ∧ token.text = quote :: (inner ++ [quote]) := by
  obtain ⟨c, rest, piece⟩ :=
    exists_firstPiece member (by rw [isString]; rfl) (by rw [isString]; decide)
  obtain ⟨quotes, inner, text⟩ := Piece.stringLiteral_shape (by rw [piece, isString])
  rw [piece] at text
  exact ⟨c, inner, quotes, text⟩

/-- A string literal of a source gives the bytes of its characters and escapes, or its first broken
escape, if a numeral in an escape may have a plus sign for its first digit.  By the digits alone it
gives the same exactly if no such numeral is reached. -/
theorem read_stringLiteral {source : Text} {token : Token} (member : token ∈ scan source)
    (isString : token.kind = .stringLiteral) :
    ∃ quote inner, Piece.isQuote quote = true ∧ token.text = quote :: (inner ++ [quote]) ∧
      (∀ result, decodeLiteral token.text = result ↔ Reading SignedNumeral inner result) ∧
      ((∀ result, decodeLiteral token.text = result ↔ Reading HexNumeral inner result) ↔
        ¬ ReachesSign inner) := by
  obtain ⟨quote, inner, quotes, text⟩ := exists_inner_of_stringLiteral member isString
  have isInner : Text.interior token.text = inner := by
    rw [text]
    simp [Text.interior]
  refine ⟨quote, inner, quotes, text, ?_, ?_⟩
  · intro result
    rw [decodeLiteral, isInner]
    exact decode_eq_iff
  · rw [decodeLiteral, isInner]
    exact decode_eq_iff_of_unsigned

/-- A literal with a broken escape behind escapes of each sort. -/
def mixedLiteral : Text := "'\\té\\x4A\\u20ac\\u+0e9\\x9'"

theorem read_stringLiteral_mixed :
    (⟨.stringLiteral, mixedLiteral, 5⟩ : Token) ∈ scan ("data " ++ mixedLiteral) ∧
      decodeLiteral mixedLiteral = .error "\\x9" ∧
      ∃ quote inner, mixedLiteral = quote :: (inner ++ [quote]) ∧
        Reading SignedNumeral inner (.error "\\x9") := by
  have member : (⟨.stringLiteral, mixedLiteral, 5⟩ : Token) ∈ scan ("data " ++ mixedLiteral) := by
    decide +kernel
  have failed : decodeLiteral mixedLiteral = .error "\\x9" := by decide +kernel
  obtain ⟨quote, inner, -, text, reads, -⟩ := read_stringLiteral member rfl
  exact ⟨member, failed, quote, inner, text, (reads _).mp failed⟩

/-- A plus sign is taken for the first digit of a byte, although it is none. -/
theorem signed_stringLiteral :
    (⟨.stringLiteral, "\"\\x+1\"", 7⟩ : Token) ∈ scan "object \"\\x+1\" \x7b \x7d" ∧
      decodeLiteral "\"\\x+1\"" = .ok [1] ∧
      ∀ bytes, ¬ Spells HexNumeral ['\\', 'x', '+', '1'] bytes := by
  refine ⟨by decide +kernel, by decide +kernel, ?_⟩
  intro bytes spells
  obtain ⟨denoted, isEscape⟩ := spells.exists_escape
  exact Escape.not_of_sign isEscape

end Token

end YulTree

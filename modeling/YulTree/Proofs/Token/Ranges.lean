import YulTree.Proofs.Text.Slice
import YulTree.Proofs.Token.Literal
import YulTree.Proofs.Token.Tiling

/-!
# Ranges of bytes

Texts that are taken by ranges of bytes, which may fail.  The tokens of a short source can be taken
from their stored places, and so can what their literals enclose (`fits_of_mem_scan`).
-/

namespace YulTree

namespace Text

theorem range?_eq_slice? {text : Text} {start stop : Nat} (ordered : start ≤ stop) :
    text.range? start stop = text.slice? start stop := if_pos ordered

theorem enclosed?_eq (front inner : Text) {last : Char} (narrow : last.utf8Size = 1) :
    enclosed? (front ++ (inner ++ [last])) front.byteSize = some inner := by
  have size : byteSize (front ++ (inner ++ [last])) = front.byteSize + inner.byteSize + 1 := by
    rw [byteSize_append, byteSize_append, byteSize_cons, byteSize_nil, narrow]
    omega
  have notEmpty : byteSize (front ++ (inner ++ [last])) ≠ 0 := by omega
  rw [enclosed?, if_neg notEmpty, size, Nat.add_sub_cancel, range?_eq_slice? (Nat.le_add_right _ _)]
  exact slice?_append front inner [last] rfl rfl

end Text

namespace Token

theorem utf8Size_of_isQuote {c : Char} (quotes : Piece.isQuote c = true) : c.utf8Size = 1 := by
  simp only [Piece.isQuote, Bool.or_eq_true, beq_iff_eq] at quotes
  rcases quotes with rfl | rfl <;> rfl

/-- The token can be taken from its stored place, and so can what a literal encloses. -/
structure Fits (token : Token) (source : Text) : Prop where
  token? : token.pack.token? source = some token
  span : token.pack.span = token.span
  string : token.kind = .stringLiteral →
    token.text.enclosed? 1 = some (Text.interior token.text)
  hexadecimal : token.kind = .hexLiteral →
    token.text.enclosed? 4 = some (Text.interior (token.text.drop 3))

/-- Every token of a short source fits. -/
theorem fits_of_mem_scan {source : Text} (short : source.byteSize < UInt32.size) {token : Token}
    (member : token ∈ scan source) : token.Fits source := by
  obtain ⟨tiles, -, stored⟩ := scan_tiles short
  obtain ⟨start, stop⟩ := stored token member
  have sameSpan : token.pack.span = token.span := by
    rw [Packed.span, start, stop]
    rfl
  have cut := tiles.cut token member
  have ordered := Nat.le_of_lt (tiles.nonempty token member)
  refine ⟨?_, sameSpan, ?_, ?_⟩
  · rw [Packed.token?, sameSpan, span, Text.range?_eq_slice? ordered, cut]
    rfl
  · intro isString
    obtain ⟨quote, inner, quotes, text⟩ := exists_inner_of_stringLiteral member isString
    have isInner : Text.interior token.text = inner := by simp [text, Text.interior]
    have taken := Text.enclosed?_eq [quote] inner (utf8Size_of_isQuote quotes)
    rw [Text.byteSize_cons, utf8Size_of_isQuote quotes] at taken
    rw [isInner, text]
    exact taken
  · intro isHex
    obtain ⟨quote, digits, quotes, written, -⟩ := exists_digits_of_hexLiteral member isHex
    have text : token.text = ['h', 'e', 'x', quote] ++ (digits ++ [quote]) := written
    have isInner : Text.interior (token.text.drop 3) = digits := by simp [text, Text.interior]
    have taken := Text.enclosed?_eq ['h', 'e', 'x', quote] digits (utf8Size_of_isQuote quotes)
    have size : Text.byteSize ['h', 'e', 'x', quote] = 4 := by
      simp only [Text.byteSize_cons, utf8Size_of_isQuote quotes]
      rfl
    rw [size] at taken
    rw [isInner, text]
    exact taken

end Token

end YulTree

import YulTree.Text.Quoted
import YulTree.Token.Piece

/-!
# Texts in quotation marks

What is written as a quoted literal is cut off as one (`quotedRun_encode`) and denotes the text
that was written (`decodeLiteral_encode`).
-/

namespace YulTree.Text.Quoted

theorem utf8EncodeChar_of_le {c : Char} (small : c.toNat ≤ 0x7f) :
    String.utf8EncodeChar c = [UInt8.ofNat c.toNat] := if_pos small

/-- A digit that is written is none of the characters that have a meaning in a literal. -/
theorem digitChar_ne {n : Nat} (small : n < 16) :
    Nat.digitChar n ≠ '+' ∧ Nat.digitChar n ≠ '"' ∧ Nat.digitChar n ≠ '\\' ∧
      Nat.digitChar n ≠ '\n' := by
  have checked : ∀ m : Fin 16, Nat.digitChar m.val ≠ '+' ∧ Nat.digitChar m.val ≠ '"' ∧
      Nat.digitChar m.val ≠ '\\' ∧ Nat.digitChar m.val ≠ '\n' := by
    decide
  exact checked ⟨n, small⟩

/-- The two digits of a byte denote the byte. -/
theorem byteEscape?_hexOfByte (byte : UInt8) :
    byteEscape? (Bytes.hexOfByte byte) = some byte := by
  have bound := byte.toNat_lt
  have highSmall : byte.toNat / 16 < 16 := by omega
  have lowSmall : byte.toNat % 16 < 16 := Nat.mod_lt _ (by decide)
  have unsigned : signedHexValue? (Bytes.hexOfByte byte) = hexValue? (Bytes.hexOfByte byte) := by
    unfold signedHexValue?
    split
    · next isPlus => exact absurd (List.cons.inj isPlus).1 (digitChar_ne highSmall).1
    · rfl
  have value : hexValue? (Bytes.hexOfByte byte) = some byte.toNat := by
    have whole : 16 * (byte.toNat / 16) + byte.toNat % 16 = byte.toNat :=
      Nat.div_add_mod byte.toNat 16
    simp [Bytes.hexOfByte, hexValue?, Bytes.hexDigitValue?_digitChar highSmall,
      Bytes.hexDigitValue?_digitChar lowSmall, whole]
  rw [byteEscape?, unsigned, value, Option.map_some, UInt8.ofNat_toNat]

/-- The ways in which a character is written. -/
theorem encodeChar_cases (c : Char) :
    (∃ mark byte, encodeChar c = ['\\', mark] ∧ mark ≠ '\n' ∧ plainEscape? mark = some byte ∧
      String.utf8EncodeChar c = [byte]) ∨
    (∃ byte, encodeChar c = '\\' :: 'x' :: Bytes.hexOfByte byte ∧
      String.utf8EncodeChar c = [byte]) ∨
    (encodeChar c = [c] ∧ c ≠ '"' ∧ c ≠ '\\' ∧ c ≠ '\n' ∧ 0x20 ≤ c.toNat ∧ c.toNat ≠ 0x7f) := by
  unfold encodeChar
  split
  · next isQuote => exact .inl ⟨'"', 0x22, rfl, by decide, rfl, by rw [isQuote]; rfl⟩
  · next notQuote =>
      split
      · next isBackslash => exact .inl ⟨'\\', 0x5c, rfl, by decide, rfl, by rw [isBackslash]; rfl⟩
      · next notBackslash =>
          split
          · next isBreak => exact .inl ⟨'n', 0x0a, rfl, by decide, rfl, by rw [isBreak]; rfl⟩
          · next notBreak =>
              split
              · next isReturn => exact .inl ⟨'r', 0x0d, rfl, by decide, rfl, by rw [isReturn]; rfl⟩
              · split
                · next isTab => exact .inl ⟨'t', 0x09, rfl, by decide, rfl, by rw [isTab]; rfl⟩
                · split
                  · next isControl =>
                      have small : c.toNat ≤ 0x7f := by omega
                      exact .inr (.inl ⟨UInt8.ofNat c.toNat, rfl, utf8EncodeChar_of_le small⟩)
                  · next notControl =>
                      have visible : 0x20 ≤ c.toNat ∧ c.toNat ≠ 0x7f := by omega
                      exact .inr (.inr ⟨rfl, notQuote, notBackslash, notBreak, visible⟩)

theorem decode_plain {c : Char} (notBackslash : c ≠ '\\') (rest : Text) :
    decode (c :: rest) = (decode rest).map (String.utf8EncodeChar c ++ ·) := by
  rw [decode.eq_def]
  exact if_pos notBackslash

theorem decode_escape {mark : Char} {byte : UInt8} (denoted : plainEscape? mark = some byte)
    (rest : Text) : decode ('\\' :: mark :: rest) = (decode rest).map (byte :: ·) := by
  rw [decode.eq_def]
  simp only [ne_eq, not_true_eq_false, if_false, denoted]

theorem decode_byteEscape {high low : Char} {byte : UInt8}
    (denoted : byteEscape? [high, low] = some byte) (rest : Text) :
    decode ('\\' :: 'x' :: high :: low :: rest) = (decode rest).map (byte :: ·) := by
  have notPlain : plainEscape? 'x' = none := rfl
  rw [decode.eq_def]
  simp only [ne_eq, not_true_eq_false, if_false, if_true, notPlain, denoted]

theorem decode_encodeChar (c : Char) (rest : Text) :
    decode (encodeChar c ++ rest) = (decode rest).map (String.utf8EncodeChar c ++ ·) := by
  rcases encodeChar_cases c with ⟨mark, byte, written, -, denoted, bytes⟩ |
    ⟨byte, written, bytes⟩ | ⟨written, -, notBackslash, -⟩
  · rw [written, bytes]
    exact decode_escape denoted rest
  · rw [written, bytes]
    exact decode_byteEscape (byteEscape?_hexOfByte byte) rest
  · rw [written]
    exact decode_plain notBackslash rest

theorem quotedRun_close (quote : Char) (rest : Text) :
    Piece.quotedRun quote (quote :: rest) = ⟨true, [quote], rest⟩ := by
  rw [Piece.quotedRun.eq_def]
  exact if_pos rfl

theorem quotedRun_plain {quote c : Char} (notQuote : c ≠ quote) (notBackslash : c ≠ '\\')
    (notBreak : c ≠ '\n') (rest : Text) :
    Piece.quotedRun quote (c :: rest) = (Piece.quotedRun quote rest).prepend [c] := by
  rw [Piece.quotedRun.eq_def]
  simp only [notQuote, notBackslash, notBreak, if_false]

theorem quotedRun_escape {quote mark : Char} (notBackslash : '\\' ≠ quote)
    (notBreak : mark ≠ '\n') (rest : Text) :
    Piece.quotedRun quote ('\\' :: mark :: rest) =
      (Piece.quotedRun quote rest).prepend ['\\', mark] := by
  have isOther : '\\' ≠ '\n' := by decide
  rw [Piece.quotedRun.eq_def]
  simp only [notBackslash, notBreak, isOther, if_false, if_true]

theorem quotedRun_encodeChar (c : Char) (rest : Text) :
    Piece.quotedRun '"' (encodeChar c ++ rest) =
      (Piece.quotedRun '"' rest).prepend (encodeChar c) := by
  rcases encodeChar_cases c with ⟨mark, byte, written, notBreak, -, -⟩ |
    ⟨byte, written, -⟩ | ⟨written, notQuote, notBackslash, notBreak, -⟩
  · rw [written]
    exact quotedRun_escape (by decide) notBreak rest
  · have bound := byte.toNat_lt
    obtain ⟨-, highQuote, highBackslash, highBreak⟩ :=
      digitChar_ne (n := byte.toNat / 16) (by omega)
    obtain ⟨-, lowQuote, lowBackslash, lowBreak⟩ :=
      digitChar_ne (n := byte.toNat % 16) (Nat.mod_lt _ (by decide))
    rw [written, Bytes.hexOfByte, List.cons_append, List.cons_append, List.cons_append,
      List.singleton_append, quotedRun_escape (by decide) (by decide),
      quotedRun_plain highQuote highBackslash highBreak,
      quotedRun_plain lowQuote lowBackslash lowBreak]
    rfl
  · rw [written]
    exact quotedRun_plain notQuote notBackslash notBreak rest

theorem unbroken_encodeChar (c : Char) : '\n' ∉ encodeChar c := by
  rcases encodeChar_cases c with ⟨mark, byte, written, notBreak, -, -⟩ |
    ⟨byte, written, -⟩ | ⟨written, -, -, notBreak, -⟩
  · rw [written]
    simp [Ne.symm notBreak]
  · have bound := byte.toNat_lt
    obtain ⟨-, -, -, highBreak⟩ := digitChar_ne (n := byte.toNat / 16) (by omega)
    obtain ⟨-, -, -, lowBreak⟩ :=
      digitChar_ne (n := byte.toNat % 16) (Nat.mod_lt _ (by decide))
    rw [written, Bytes.hexOfByte]
    simp [Ne.symm highBreak, Ne.symm lowBreak]
  · rw [written]
    simpa using Ne.symm notBreak

theorem decode_encodeChars (text : Text) :
    decode (text.flatMap encodeChar) = .ok text.toBytes := by
  induction text with
  | nil => rfl
  | cons c rest inductionHypothesis =>
      rw [List.flatMap_cons, decode_encodeChar, inductionHypothesis]
      rfl

/-- A text that is written as a literal is denoted by it. -/
theorem decodeLiteral_encode (text : Text) : decodeLiteral (encode text) = .ok text.toBytes := by
  have inner : interior (encode text) = text.flatMap encodeChar := by
    simp [interior, encode]
  rw [decodeLiteral, inner, decode_encodeChars]

/-- A literal that is written ends where it was meant to. -/
theorem quotedRun_encode (text rest : Text) :
    Piece.quotedRun '"' (text.flatMap encodeChar ++ '"' :: rest) =
      ⟨true, text.flatMap encodeChar ++ ['"'], rest⟩ := by
  induction text with
  | nil => exact quotedRun_close '"' rest
  | cons c others inductionHypothesis =>
      rw [List.flatMap_cons, List.append_assoc, quotedRun_encodeChar, inductionHypothesis,
        Run.prepend, List.append_assoc]

theorem unbroken_encode (text : Text) : '\n' ∉ encode text := by
  have unbroken : '\n' ∉ text.flatMap encodeChar := by
    rw [List.mem_flatMap]
    rintro ⟨c, -, broken⟩
    exact unbroken_encodeChar c broken
  simp [encode, unbroken]

end YulTree.Text.Quoted

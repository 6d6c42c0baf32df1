import YulTree.Proofs.Token.Ahead
import YulTree.Proofs.Token.Shape

/-!
# Spellings of byte strings

A byte string is spelled by two hexadecimal digits for each byte, of either letter case, with
underscores anywhere.  It is read from each of its spellings (`ofHex?_of_spelling`), and written in
the one that has small letters and no underscores.
-/

namespace YulTree.Bytes

open Text

def smallDigits : Text := "0123456789abcdef"

def capitalDigits : Text := "0123456789ABCDEF"

/-- A digit with a value below sixteen. -/
def IsHexDigit (value : Nat) (c : Char) : Prop :=
  smallDigits[value]? = some c ∨ capitalDigits[value]? = some c

/-- The spellings of a byte string. -/
inductive HexSpelling : Bytes → Text → Prop
  | nil : HexSpelling [] []
  | underscore {bytes : Bytes} {text : Text} :
      HexSpelling bytes text → HexSpelling bytes ('_' :: text)
  | byte {byte : UInt8} {bytes : Bytes} {high low : Char} {gap text : Text} :
      IsHexDigit (byte.toNat / 16) high → (∀ c ∈ gap, c = '_') →
      IsHexDigit (byte.toNat % 16) low → HexSpelling bytes text →
      HexSpelling (byte :: bytes) (high :: (gap ++ low :: text))

/-- Digits and underscores that spell no byte string, because the digits are odd in number. -/
structure IsOddHex (text : Text) : Prop where
  hexadecimal : ∀ c ∈ text, c = '_' ∨ c ∈ smallDigits ∨ c ∈ capitalDigits
  odd : text.countP (· != '_') % 2 = 1

def IsReadAs (value : Nat) (c : Char) : Prop :=
  hexDigitValue? c = some value ∧ Piece.isHexRest c = true ∧ c ≠ '_'

theorem isReadAs_of_isHexDigit {value : Nat} {c : Char} (isDigit : IsHexDigit value c) :
    IsReadAs value c := by
  have checked : ∀ digits ∈ [smallDigits, capitalDigits], digits.length = 16 ∧
      ∀ m : Fin 16, hexDigitValue? (digits.getD m.val '_') = some m.val ∧
        Piece.isHexRest (digits.getD m.val '_') = true ∧ digits.getD m.val '_' ≠ '_' := by
    decide
  have inRow : ∃ digits ∈ [smallDigits, capitalDigits], digits[value]? = some c := by
    rcases isDigit with small | capital
    · exact ⟨smallDigits, by simp, small⟩
    · exact ⟨capitalDigits, by simp, capital⟩
  obtain ⟨digits, isRow, listed⟩ := inRow
  obtain ⟨count, read⟩ := checked digits isRow
  have bound := (List.getElem?_eq_some_iff.mp listed).1
  have digitRead := read ⟨value, count ▸ bound⟩
  rw [List.getD_eq_getElem?_getD, listed, Option.getD_some] at digitRead
  exact digitRead

theorem isHexRest_of_spelling {bytes : Bytes} {text : Text} (spelling : HexSpelling bytes text) :
    ∀ c ∈ text, Piece.isHexRest c = true := by
  induction spelling with
  | nil => exact List.forall_mem_nil _
  | underscore _ inductionHypothesis => exact List.forall_mem_cons.mpr ⟨rfl, inductionHypothesis⟩
  | byte isHigh isGap isLow _ inductionHypothesis =>
      refine List.forall_mem_cons.mpr ⟨(isReadAs_of_isHexDigit isHigh).2.1, ?_⟩
      refine List.forall_mem_append.mpr ⟨?_, ?_⟩
      · intro c member
        rw [isGap c member]
        rfl
      · exact List.forall_mem_cons.mpr ⟨(isReadAs_of_isHexDigit isLow).2.1, inductionHypothesis⟩

/-- The two digits of a byte give the byte. -/
theorem byteOfHex?_of_isHexDigit {byte : UInt8} {high low : Char}
    (isHigh : IsHexDigit (byte.toNat / 16) high) (isLow : IsHexDigit (byte.toNat % 16) low) :
    byteOfHex? high low = some byte := by
  have whole : 16 * (byte.toNat / 16) + byte.toNat % 16 = byte.toNat :=
    Nat.div_add_mod byte.toNat 16
  rw [byteOfHex?, (isReadAs_of_isHexDigit isHigh).1, (isReadAs_of_isHexDigit isLow).1]
  change some (UInt8.ofNat (16 * (byte.toNat / 16) + byte.toNat % 16)) = some byte
  rw [whole, UInt8.ofNat_toNat]

/-- A byte string is read from all of its spellings. -/
theorem ofHex?_of_spelling {bytes : Bytes} {text : Text} (spelling : HexSpelling bytes text) :
    ofHex? (text.filter (· != '_')) = some bytes := by
  induction spelling with
  | nil => rfl
  | underscore _ inductionHypothesis => exact inductionHypothesis
  | @byte byte bytes high low gap text isHigh isGap isLow _ inductionHypothesis =>
      have highKept : (high != '_') = true :=
        bne_iff_ne.mpr (isReadAs_of_isHexDigit isHigh).2.2
      have lowKept : (low != '_') = true := bne_iff_ne.mpr (isReadAs_of_isHexDigit isLow).2.2
      have gapGone : gap.filter (· != '_') = [] := by
        rw [List.filter_eq_nil_iff]
        intro c member
        rw [isGap c member]
        decide
      rw [List.filter_cons_of_pos (p := (· != '_')) highKept, List.filter_append, gapGone,
        List.nil_append,
        List.filter_cons_of_pos (p := (· != '_')) lowKept, ofHex?,
        byteOfHex?_of_isHexDigit isHigh isLow, inductionHypothesis]
      rfl

/-- No byte string is read from an odd number of digits. -/
theorem ofHex?_of_isOddHex {text : Text} (isOdd : IsOddHex text) :
    ofHex? (text.filter (· != '_')) = none := by
  have valued : ∀ c ∈ text.filter (· != '_'), (hexDigitValue? c).isSome = true := by
    have checked : ∀ c ∈ smallDigits ++ capitalDigits, (hexDigitValue? c).isSome = true :=
      List.all_eq_true.mp rfl
    intro c member
    obtain ⟨inText, kept⟩ := List.mem_filter.mp member
    rcases isOdd.hexadecimal c inText with rfl | small | capital
    · cases kept
    · exact checked c (List.mem_append_left _ small)
    · exact checked c (List.mem_append_right _ capital)
  have notPaired : (text.filter (· != '_')).length % 2 ≠ 0 := by
    rw [← List.countP_eq_length_filter, isOdd.odd]
    decide
  rw [← Option.not_isSome_iff_eq_none, ofHex?_isSome_iff valued]
  exact notPaired

theorem isHexRest_of_isOddHex {text : Text} (isOdd : IsOddHex text) :
    ∀ c ∈ text, Piece.isHexRest c = true := by
  have checked : ∀ c ∈ smallDigits ++ capitalDigits, Piece.isHexRest c = true :=
    List.all_eq_true.mp rfl
  intro c member
  rcases isOdd.hexadecimal c member with rfl | small | capital
  · rfl
  · exact checked c (List.mem_append_left _ small)
  · exact checked c (List.mem_append_right _ capital)

theorem smallDigits_getElem? {n : Nat} (small : n < 16) :
    smallDigits[n]? = some (Nat.digitChar n) := by
  have checked : ∀ m : Fin 16, smallDigits[m.val]? = some (Nat.digitChar m.val) := by
    decide
  exact checked ⟨n, small⟩

/-- A byte string is written with small letters and without underscores. -/
theorem mem_smallDigits_of_mem_toHex {bytes : Bytes} {c : Char} (member : c ∈ bytes.toHex) :
    c ∈ smallDigits := by
  obtain ⟨byte, -, written⟩ := List.mem_flatMap.mp member
  have bound := byte.toNat_lt
  simp only [hexOfByte, List.mem_cons, List.not_mem_nil, or_false] at written
  rcases written with rfl | rfl
  · exact List.mem_of_getElem? (smallDigits_getElem? (by omega))
  · exact List.mem_of_getElem? (smallDigits_getElem? (Nat.mod_lt _ (by decide)))

theorem spelling_toHex (bytes : Bytes) : HexSpelling bytes bytes.toHex := by
  induction bytes with
  | nil => exact .nil
  | cons byte rest inductionHypothesis =>
      have bound := byte.toNat_lt
      have isHigh : IsHexDigit (byte.toNat / 16) (Nat.digitChar (byte.toNat / 16)) :=
        .inl (smallDigits_getElem? (by omega))
      have isLow : IsHexDigit (byte.toNat % 16) (Nat.digitChar (byte.toNat % 16)) :=
        .inl (smallDigits_getElem? (Nat.mod_lt _ (by decide)))
      have noGap : ∀ c ∈ ([] : Text), c = '_' := List.forall_mem_nil _
      exact .byte isHigh noGap isLow inductionHypothesis

theorem eq_digitChar_of_isHexDigit {value : Nat} {c : Char} (isDigit : IsHexDigit value c)
    (small : c ∈ smallDigits) : c = Nat.digitChar value := by
  have checked : capitalDigits.length = 16 ∧ ∀ m : Fin 16,
      capitalDigits.getD m.val '_' ∈ smallDigits →
        capitalDigits.getD m.val '_' = Nat.digitChar m.val := by
    decide
  rcases isDigit with isSmall | isCapital
  · have bound : value < 16 := (List.getElem?_eq_some_iff.mp isSmall).1
    rw [smallDigits_getElem? bound] at isSmall
    exact (Option.some.inj isSmall).symm
  · have bound := (List.getElem?_eq_some_iff.mp isCapital).1
    have agrees := checked.2 ⟨value, checked.1 ▸ bound⟩
    rw [List.getD_eq_getElem?_getD, isCapital, Option.getD_some] at agrees
    exact agrees small

/-- The written spelling is the only one with small letters and without underscores. -/
theorem eq_toHex_of_spelling {bytes : Bytes} {text : Text} (spelling : HexSpelling bytes text)
    (small : ∀ c ∈ text, c ∈ smallDigits) : text = bytes.toHex := by
  have noUnderscore : '_' ∉ smallDigits := by decide
  induction spelling with
  | nil => rfl
  | underscore => exact absurd (small '_' List.mem_cons_self) noUnderscore
  | @byte byte bytes high low gap text isHigh isGap isLow _ inductionHypothesis =>
      obtain ⟨smallHigh, smallRest⟩ := List.forall_mem_cons.mp small
      obtain ⟨smallGap, smallBehind⟩ := List.forall_mem_append.mp smallRest
      obtain ⟨smallLow, smallText⟩ := List.forall_mem_cons.mp smallBehind
      have noGap : gap = [] := by
        rw [List.eq_nil_iff_forall_not_mem]
        intro c member
        exact noUnderscore (isGap c member ▸ smallGap c member)
      rw [noGap, eq_digitChar_of_isHexDigit isHigh smallHigh,
        eq_digitChar_of_isHexDigit isLow smallLow, inductionHypothesis smallText]
      rfl

end YulTree.Bytes

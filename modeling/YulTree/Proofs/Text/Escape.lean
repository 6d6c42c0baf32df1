import Mathlib.Data.List.Induction
import YulTree.Proofs.Text.Encode

/-!
# Escapes in literals

What stands between quotation marks, by the numerals that escapes may hold: the bytes that its
characters and escapes spell, or else its first broken escape.  Literals are read as if a numeral
could have a plus sign for its first digit (`decode_eq_iff`); where no such numeral is reached, they
are read by their digits alone (`decode_eq_iff_of_unsigned`).
-/

namespace YulTree

namespace Text

/-- Hexadecimal digits of either letter case, and the number of which they are a numeral. -/
inductive HexNumeral : Text → Nat → Prop
  | single {c : Char} {digit : Nat} : hexDigitValue? c = some digit → HexNumeral [c] digit
  | snoc {digits : Text} {value : Nat} {c : Char} {digit : Nat} :
      HexNumeral digits value → hexDigitValue? c = some digit →
      HexNumeral (digits ++ [c]) (16 * value + digit)

/-- Numerals that may have a plus sign in front. -/
inductive SignedNumeral : Text → Nat → Prop
  | unsigned {digits : Text} {value : Nat} : HexNumeral digits value → SignedNumeral digits value
  | signed {digits : Text} {value : Nat} :
      HexNumeral digits value → SignedNumeral ('+' :: digits) value

theorem hexValue?_singleton (c : Char) : hexValue? [c] = hexDigitValue? c := by
  simp [hexValue?]

theorem hexValue?_concat {digits : Text} (nonempty : digits ≠ []) (c : Char) :
    hexValue? (digits ++ [c]) =
      (hexValue? digits).bind fun value => (hexDigitValue? c).map (16 * value + ·) := by
  cases digits with
  | nil => exact absurd rfl nonempty
  | cons first rest =>
      rw [List.cons_append, hexValue?, hexValue?, ← List.cons_append, List.foldlM_append]
      · simp
      · simp
      · simp

theorem hexValue?_eq_some_iff {digits : Text} {value : Nat} :
    hexValue? digits = some value ↔ HexNumeral digits value := by
  constructor
  · intro isValue
    induction digits using List.reverseRecOn generalizing value with
    | nil => cases isValue
    | append_singleton front c inductionHypothesis =>
        by_cases alone : front = []
        · subst alone
          rw [List.nil_append, hexValue?_singleton] at isValue
          exact .single isValue
        · rw [hexValue?_concat alone] at isValue
          obtain ⟨frontValue, isFront, last⟩ := Option.bind_eq_some_iff.mp isValue
          obtain ⟨digit, isDigit, rfl⟩ := Option.map_eq_some_iff.mp last
          exact .snoc (inductionHypothesis isFront) isDigit
  · intro numeral
    induction numeral with
    | single isDigit => rw [hexValue?_singleton, isDigit]
    | @snoc digits value c digit front isDigit inductionHypothesis =>
        have nonempty : digits ≠ [] := by
          rintro rfl
          cases inductionHypothesis
        rw [hexValue?_concat nonempty, inductionHypothesis, isDigit]
        rfl

theorem HexNumeral.notMem_plus {digits : Text} {value : Nat} (numeral : HexNumeral digits value) :
    '+' ∉ digits := by
  induction numeral with
  | single isDigit =>
      rw [List.mem_singleton]
      rintro rfl
      cases isDigit
  | snoc front isDigit inductionHypothesis =>
      rw [List.mem_append, List.mem_singleton]
      rintro (inFront | rfl)
      · exact inductionHypothesis inFront
      · cases isDigit

theorem signedHexValue?_eq_some_iff {digits : Text} {value : Nat} :
    signedHexValue? digits = some value ↔ SignedNumeral digits value := by
  unfold signedHexValue?
  split
  · next unsigned =>
      rw [hexValue?_eq_some_iff]
      constructor
      · exact .signed
      · intro numeral
        cases numeral with
        | unsigned numeral => exact absurd List.mem_cons_self numeral.notMem_plus
        | signed numeral => exact numeral
  · next notSigned =>
      rw [hexValue?_eq_some_iff]
      constructor
      · exact .unsigned
      · intro numeral
        cases numeral with
        | unsigned numeral => exact numeral
        | signed numeral => exact absurd rfl (notSigned _)

end Text

namespace Text.Quoted

/-- The marks that stand for one byte behind a backslash. -/
def plainMarks : List (Char × UInt8) :=
  [('\\', 0x5c), ('"', 0x22), ('\'', 0x27), ('n', 0x0a), ('r', 0x0d), ('t', 0x09)]

/-- How many characters of a numeral a mark asks for. -/
def digitCount (mark : Char) : Nat :=
  if mark = 'x' then 2 else if mark = 'u' then 4 else 0

/-- The escape that a backslash begins, by the text behind the backslash: a mark, and what it asks
for as far as there is any. -/
def escapeAt : Text → Text
  | [] => ['\\']
  | mark :: rest => '\\' :: mark :: rest.take (digitCount mark)

section

variable (numeral : Text → Nat → Prop)

/-- The escapes and the bytes that they denote: a mark that stands for a byte, the numeral of a byte
in two characters, or that of a character in four. -/
inductive Escape : Text → Bytes → Prop
  | mark {mark : Char} {byte : UInt8} :
      (mark, byte) ∈ plainMarks → Escape ['\\', mark] [byte]
  | byte {digits : Text} {value : Nat} :
      digits.length = 2 → numeral digits value →
      Escape ('\\' :: 'x' :: digits) [UInt8.ofNat value]
  | character {digits : Text} {c : Char} :
      digits.length = 4 → numeral digits c.toNat →
      Escape ('\\' :: 'u' :: digits) (String.utf8EncodeChar c)

/-- Texts in which every backslash begins an escape, and the bytes that they spell. -/
inductive Spells : Text → Bytes → Prop
  | nil : Spells [] []
  | plain {c : Char} {rest : Text} {bytes : Bytes} :
      c ≠ '\\' → Spells rest bytes → Spells (c :: rest) (String.utf8EncodeChar c ++ bytes)
  | escape {written rest : Text} {denoted bytes : Bytes} :
      Escape numeral written denoted → Spells rest bytes →
      Spells (written ++ rest) (denoted ++ bytes)

/-- What a text between quotation marks gives: the bytes that it spells, or the first escape in it
that is none. -/
inductive Reading : Text → Except Text Bytes → Prop
  | bytes {inner : Text} {bytes : Bytes} :
      Spells numeral inner bytes → Reading inner (.ok bytes)
  | broken {front back : Text} {bytes : Bytes} :
      Spells numeral front bytes → (∀ denoted, ¬ Escape numeral (escapeAt back) denoted) →
      Reading (front ++ '\\' :: back) (.error (escapeAt back))

end

/-- Behind escapes with digits only comes one with a plus sign, which is read nevertheless. -/
def ReachesSign (inner : Text) : Prop :=
  ∃ front bytes mark digits denoted back,
    inner = front ++ ('\\' :: mark :: '+' :: digits ++ back) ∧
      Spells HexNumeral front bytes ∧
      Escape SignedNumeral ('\\' :: mark :: '+' :: digits) denoted

variable {numeral : Text → Nat → Prop}

theorem Spells.singleton {c : Char} (notBackslash : c ≠ '\\') :
    Spells numeral [c] (String.utf8EncodeChar c) := by
  simpa using Spells.plain notBackslash .nil

theorem Escape.spells {written : Text} {denoted : Bytes}
    (isEscape : Escape numeral written denoted) : Spells numeral written denoted := by
  simpa using Spells.escape isEscape .nil

theorem Spells.append {front back : Text} {first second : Bytes}
    (spells : Spells numeral front first) (behind : Spells numeral back second) :
    Spells numeral (front ++ back) (first ++ second) := by
  induction spells with
  | nil => exact behind
  | plain notBackslash _ inductionHypothesis =>
      rw [List.cons_append, List.append_assoc]
      exact .plain notBackslash inductionHypothesis
  | escape isEscape _ inductionHypothesis =>
      rw [List.append_assoc, List.append_assoc]
      exact .escape isEscape inductionHypothesis

theorem Reading.behind {front rest : Text} {bytes : Bytes} {result : Except Text Bytes}
    (spells : Spells numeral front bytes) (reading : Reading numeral rest result) :
    Reading numeral (front ++ rest) (result.map (bytes ++ ·)) := by
  cases reading with
  | bytes restSpells => exact .bytes (spells.append restSpells)
  | broken restSpells breaks =>
      rw [← List.append_assoc]
      exact .broken (spells.append restSpells) breaks

theorem mem_plainMarks_iff {mark : Char} {byte : UInt8} :
    (mark, byte) ∈ plainMarks ↔ plainEscape? mark = some byte := by
  constructor
  · have checked : ∀ entry ∈ plainMarks, plainEscape? entry.1 = some entry.2 := by decide
    exact checked (mark, byte)
  · intro denoted
    unfold plainEscape? at denoted
    repeat' split at denoted
    all_goals simp_all [plainMarks]

theorem digitCount_of_mem_plainMarks {mark : Char} {byte : UInt8}
    (listed : (mark, byte) ∈ plainMarks) : digitCount mark = 0 := by
  have checked : ∀ entry ∈ plainMarks, digitCount entry.1 = 0 := by decide
  exact checked (mark, byte) listed

theorem byteEscape?_eq_some_iff {digits : Text} {byte : UInt8} :
    byteEscape? digits = some byte ↔
      ∃ value, SignedNumeral digits value ∧ UInt8.ofNat value = byte := by
  simp only [byteEscape?, Option.map_eq_some_iff, signedHexValue?_eq_some_iff]

theorem charEscape?_eq_some_iff {digits : Text} {c : Char} :
    charEscape? digits = some c ↔ SignedNumeral digits c.toNat := by
  rw [charEscape?, Option.bind_eq_some_iff]
  simp only [signedHexValue?_eq_some_iff]
  constructor
  · rintro ⟨value, isValue, isChar⟩
    split at isChar
    · next valid =>
        obtain rfl := Option.some.inj isChar
        have sameValue : (Char.ofNat value).toNat = value := by
          rw [Char.ofNat, dif_pos valid]
          rfl
        rw [sameValue]
        exact isValue
    · cases isChar
  · intro isValue
    have valid : c.toNat.isValidChar := c.valid
    exact ⟨c.toNat, isValue, by rw [if_pos valid, Char.ofNat_toNat]⟩

theorem decode_charEscape {a b d e denoted : Char}
    (isChar : charEscape? [a, b, d, e] = some denoted) (rest : Text) :
    decode ('\\' :: 'u' :: a :: b :: d :: e :: rest) =
      (decode rest).map (String.utf8EncodeChar denoted ++ ·) := by
  have notPlain : plainEscape? 'u' = none := rfl
  have isOther : 'u' ≠ 'x' := by decide
  rw [decode.eq_def]
  simp only [ne_eq, not_true_eq_false, if_false, if_true, notPlain, isOther, isChar]

/-- An escape is read as what it denotes. -/
theorem decode_of_escape {written : Text} {denoted : Bytes}
    (isEscape : Escape SignedNumeral written denoted) (rest : Text) :
    decode (written ++ rest) = (decode rest).map (denoted ++ ·) := by
  cases isEscape with
  | mark listed => exact decode_escape (mem_plainMarks_iff.mp listed) rest
  | @byte digits value two isValue =>
      match digits, two with
      | [_, _], _ =>
          exact decode_byteEscape (byteEscape?_eq_some_iff.mpr ⟨value, isValue, rfl⟩) rest
  | @character digits c four isValue =>
      match digits, four with
      | [_, _, _, _], _ => exact decode_charEscape (charEscape?_eq_some_iff.mpr isValue) rest

theorem decode_of_brokenByte {rest : Text}
    (breaks : ∀ denoted, ¬ Escape SignedNumeral (escapeAt ('x' :: rest)) denoted) :
    decode ('\\' :: 'x' :: rest) = .error (escapeAt ('x' :: rest)) := by
  have notPlain : plainEscape? 'x' = none := rfl
  rw [decode.eq_def]
  simp only [ne_eq, not_true_eq_false, if_false, if_true, notPlain]
  rcases rest with _ | ⟨high, _ | ⟨low, rest⟩⟩
  · rfl
  · rfl
  · have noByte : byteEscape? [high, low] = none := by
      cases isValue : byteEscape? [high, low] with
      | none => rfl
      | some byte =>
          obtain ⟨value, isNumeral, -⟩ := byteEscape?_eq_some_iff.mp isValue
          exact absurd (.byte rfl isNumeral) (breaks _)
    simp only [noByte]
    rfl

theorem decode_of_brokenCharacter {rest : Text}
    (breaks : ∀ denoted, ¬ Escape SignedNumeral (escapeAt ('u' :: rest)) denoted) :
    decode ('\\' :: 'u' :: rest) = .error (escapeAt ('u' :: rest)) := by
  have notPlain : plainEscape? 'u' = none := rfl
  have isOther : 'u' ≠ 'x' := by decide
  rw [decode.eq_def]
  simp only [ne_eq, not_true_eq_false, if_false, if_true, notPlain, isOther]
  rcases rest with _ | ⟨a, _ | ⟨b, _ | ⟨d, _ | ⟨e, rest⟩⟩⟩⟩
  · rfl
  · rfl
  · rfl
  · rfl
  · have noCharacter : charEscape? [a, b, d, e] = none := by
      cases isValue : charEscape? [a, b, d, e] with
      | none => rfl
      | some c => exact absurd (.character rfl (charEscape?_eq_some_iff.mp isValue)) (breaks _)
    simp only [noCharacter]
    rfl

/-- A backslash that begins no escape is an error. -/
theorem decode_of_broken {back : Text}
    (breaks : ∀ denoted, ¬ Escape SignedNumeral (escapeAt back) denoted) :
    decode ('\\' :: back) = .error (escapeAt back) := by
  cases back with
  | nil =>
      rw [decode.eq_def]
      rfl
  | cons mark rest =>
      by_cases isByte : mark = 'x'
      · subst isByte
        exact decode_of_brokenByte breaks
      · by_cases isCharacter : mark = 'u'
        · subst isCharacter
          exact decode_of_brokenCharacter breaks
        · have alone : escapeAt (mark :: rest) = ['\\', mark] := by
            rw [escapeAt, digitCount, if_neg isByte, if_neg isCharacter, List.take_zero]
          have notPlain : plainEscape? mark = none := by
            cases isPlain : plainEscape? mark with
            | none => rfl
            | some byte =>
                rw [alone] at breaks
                exact absurd (.mark (mem_plainMarks_iff.mpr isPlain)) (breaks [byte])
          rw [alone, decode.eq_def]
          simp only [ne_eq, not_true_eq_false, if_false, notPlain, isByte, isCharacter]

theorem exists_behind_escapeAt (back : Text) : ∃ rest, '\\' :: back = escapeAt back ++ rest := by
  cases back with
  | nil => exact ⟨[], rfl⟩
  | cons mark rest =>
      refine ⟨rest.drop (digitCount mark), ?_⟩
      rw [escapeAt, List.cons_append, List.cons_append, List.take_append_drop]

/-- An escape is what its backslash begins, whatever follows it. -/
theorem Escape.exists_escapeAt {written : Text} {denoted : Bytes}
    (isEscape : Escape numeral written denoted) (rest : Text) :
    ∃ back, written ++ rest = '\\' :: back ∧ escapeAt back = written := by
  cases isEscape with
  | @mark mark byte listed =>
      refine ⟨mark :: rest, rfl, ?_⟩
      rw [escapeAt, digitCount_of_mem_plainMarks listed, List.take_zero]
  | @byte digits value two isValue =>
      refine ⟨'x' :: (digits ++ rest), rfl, ?_⟩
      change '\\' :: 'x' :: (digits ++ rest).take 2 = _
      rw [List.take_left' two]
  | @character digits c four isValue =>
      refine ⟨'u' :: (digits ++ rest), rfl, ?_⟩
      change '\\' :: 'u' :: (digits ++ rest).take 4 = _
      rw [List.take_left' four]

theorem Spells.exists_escape {back : Text} {bytes : Bytes}
    (spells : Spells numeral ('\\' :: back) bytes) :
    ∃ denoted, Escape numeral (escapeAt back) denoted := by
  generalize isText : '\\' :: back = text at spells
  cases spells with
  | nil => cases isText
  | plain notBackslash _ => exact absurd (List.cons.inj isText).1.symm notBackslash
  | @escape written rest denoted _ isEscape _ =>
      obtain ⟨behind, cut, isWritten⟩ := isEscape.exists_escapeAt rest
      rw [cut] at isText
      obtain rfl := (List.cons.inj isText).2
      exact ⟨denoted, by rw [isWritten]; exact isEscape⟩

theorem decode_append_of_spells {front : Text} {bytes : Bytes}
    (spells : Spells SignedNumeral front bytes) (rest : Text) :
    decode (front ++ rest) = (decode rest).map (bytes ++ ·) := by
  induction spells with
  | nil =>
      rw [List.nil_append]
      cases decode rest <;> rfl
  | plain notBackslash _ inductionHypothesis =>
      rw [List.cons_append, decode_plain notBackslash, inductionHypothesis]
      cases decode rest <;> simp [Except.map]
  | escape isEscape _ inductionHypothesis =>
      rw [List.append_assoc, decode_of_escape isEscape, inductionHypothesis]
      cases decode rest <;> simp [Except.map]

/-- Every literal is read as what its characters and escapes say. -/
theorem reading_decode : ∀ inner : Text, Reading SignedNumeral inner (decode inner)
  | [] => .bytes .nil
  | c :: rest => by
      by_cases isBackslash : c = '\\'
      · subst isBackslash
        by_cases isEscape : ∃ denoted, Escape SignedNumeral (escapeAt rest) denoted
        · obtain ⟨denoted, isEscape⟩ := isEscape
          obtain ⟨more, cut⟩ := exists_behind_escapeAt rest
          have shorter : more.length < ('\\' :: rest).length := by
            have beginning : 0 < (escapeAt rest).length := by cases rest <;> simp [escapeAt]
            rw [cut, List.length_append]
            omega
          rw [cut, decode_of_escape isEscape]
          exact (reading_decode more).behind isEscape.spells
        · have breaks := not_exists.mp isEscape
          have reading : Reading SignedNumeral ([] ++ '\\' :: rest) (.error (escapeAt rest)) :=
            .broken .nil breaks
          rw [decode_of_broken breaks]
          exact reading
      · rw [decode_plain isBackslash]
        exact (reading_decode rest).behind (.singleton isBackslash)
termination_by inner => inner.length
decreasing_by
  · exact shorter
  · exact Nat.lt_succ_self _

/-- What a literal gives is what it spells, or else its first broken escape. -/
theorem decode_eq_iff {inner : Text} {result : Except Text Bytes} :
    decode inner = result ↔ Reading SignedNumeral inner result := by
  constructor
  · rintro rfl
    exact reading_decode inner
  · intro reading
    cases reading with
    | @bytes inner bytes spells =>
        have decoded := decode_append_of_spells spells []
        rw [List.append_nil] at decoded
        rw [decoded, decode.eq_def]
        simp [Except.map]
    | @broken front back bytes spells breaks =>
        rw [decode_append_of_spells spells, decode_of_broken breaks]
        rfl

/-! ## Numerals with a sign -/

theorem Escape.of_unsigned {written : Text} {denoted : Bytes}
    (isEscape : Escape HexNumeral written denoted) : Escape SignedNumeral written denoted := by
  cases isEscape with
  | mark listed => exact .mark listed
  | byte two isValue => exact .byte two (.unsigned isValue)
  | character four isValue => exact .character four (.unsigned isValue)

theorem Escape.cases_of_signed {written : Text} {denoted : Bytes}
    (isEscape : Escape SignedNumeral written denoted) :
    Escape HexNumeral written denoted ∨
      ∃ mark digits, written = '\\' :: mark :: '+' :: digits := by
  cases isEscape with
  | mark listed => exact .inl (.mark listed)
  | byte two isValue =>
      cases isValue with
      | unsigned isValue => exact .inl (.byte two isValue)
      | signed isValue => exact .inr ⟨'x', _, rfl⟩
  | character four isValue =>
      cases isValue with
      | unsigned isValue => exact .inl (.character four isValue)
      | signed isValue => exact .inr ⟨'u', _, rfl⟩

theorem Escape.not_of_sign {mark : Char} {digits : Text} {denoted : Bytes} :
    ¬ Escape HexNumeral ('\\' :: mark :: '+' :: digits) denoted := by
  intro isEscape
  cases isEscape with
  | byte two isValue => exact isValue.notMem_plus List.mem_cons_self
  | character four isValue => exact isValue.notMem_plus List.mem_cons_self

theorem Spells.of_unsigned {inner : Text} {bytes : Bytes} (spells : Spells HexNumeral inner bytes) :
    Spells SignedNumeral inner bytes := by
  induction spells with
  | nil => exact .nil
  | plain notBackslash _ inductionHypothesis => exact .plain notBackslash inductionHypothesis
  | escape isEscape _ inductionHypothesis => exact .escape isEscape.of_unsigned inductionHypothesis

theorem ReachesSign.append {inner : Text} (reaches : ReachesSign inner) (more : Text) :
    ReachesSign (inner ++ more) := by
  obtain ⟨front, bytes, mark, digits, denoted, back, rfl, spells, isEscape⟩ := reaches
  refine ⟨front, bytes, mark, digits, denoted, back ++ more, ?_, spells, isEscape⟩
  simp

theorem ReachesSign.behind {front inner : Text} {bytes : Bytes}
    (spells : Spells HexNumeral front bytes) (reaches : ReachesSign inner) :
    ReachesSign (front ++ inner) := by
  obtain ⟨between, denotedBetween, mark, digits, denoted, back, rfl, betweenSpells, isEscape⟩ :=
    reaches
  refine ⟨front ++ between, bytes ++ denotedBetween, mark, digits, denoted, back, ?_,
    spells.append betweenSpells, isEscape⟩
  simp

theorem Spells.unsigned {inner : Text} {bytes : Bytes} (spells : Spells SignedNumeral inner bytes)
    (unsigned : ¬ ReachesSign inner) : Spells HexNumeral inner bytes := by
  induction spells with
  | nil => exact .nil
  | @plain c rest bytes notBackslash _ inductionHypothesis =>
      refine .plain notBackslash (inductionHypothesis fun reaches => unsigned ?_)
      exact reaches.behind (.singleton notBackslash)
  | @escape written rest denoted bytes isEscape _ inductionHypothesis =>
      rcases isEscape.cases_of_signed with plain | ⟨mark, digits, rfl⟩
      · refine .escape plain (inductionHypothesis fun reaches => unsigned ?_)
        exact reaches.behind plain.spells
      · exact absurd ⟨[], [], mark, digits, denoted, rest, rfl, .nil, isEscape⟩ unsigned

theorem Reading.not_escape {inner escape : Text} (reading : Reading numeral inner (.error escape)) :
    ∀ denoted, ¬ Escape numeral escape denoted := by
  generalize failed : Except.error escape = result at reading
  cases reading with
  | bytes => cases failed
  | broken _ breaks =>
      cases failed
      exact breaks

/-- Digits alone make up the numerals that are read exactly if no sign is reached. -/
theorem decode_eq_iff_of_unsigned {inner : Text} :
    (∀ result, decode inner = result ↔ Reading HexNumeral inner result) ↔ ¬ ReachesSign inner := by
  constructor
  · rintro same ⟨front, bytes, mark, digits, denoted, back, rfl, spells, isEscape⟩
    obtain ⟨behind, cut, isWritten⟩ := isEscape.exists_escapeAt back
    have broken : Reading HexNumeral (front ++ '\\' :: behind) (.error (escapeAt behind)) := by
      apply Reading.broken spells
      rw [isWritten]
      intro denoted
      exact Escape.not_of_sign
    rw [← cut, isWritten] at broken
    exact (decode_eq_iff.mp ((same _).mpr broken)).not_escape denoted isEscape
  · intro unsigned result
    rw [decode_eq_iff]
    constructor
    · intro reading
      cases reading with
      | bytes spells => exact .bytes (spells.unsigned unsigned)
      | broken spells breaks =>
          refine .broken (spells.unsigned fun reaches => unsigned (reaches.append _)) ?_
          intro denoted isEscape
          exact breaks denoted isEscape.of_unsigned
    · intro reading
      cases reading with
      | bytes spells => exact .bytes spells.of_unsigned
      | @broken front back bytes spells breaks =>
          refine .broken spells.of_unsigned ?_
          intro denoted isEscape
          rcases isEscape.cases_of_signed with plain | ⟨mark, digits, isWritten⟩
          · exact breaks denoted plain
          · obtain ⟨more, cut⟩ := exists_behind_escapeAt back
            rw [isWritten] at isEscape cut
            apply unsigned
            exact ⟨front, bytes, mark, digits, denoted, more, by rw [cut], spells, isEscape⟩

end Text.Quoted

end YulTree

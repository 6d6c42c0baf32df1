import YulTree.Object.Printer
import YulTree.Proofs.Reader.Resume
import YulTree.Proofs.Text.HexSpelling
import YulTree.Proofs.Text.Slice

/-!
# Hexadecimal data

A hexadecimal literal that the reader meets as the value of a data item gives the byte string that
it spells, and stops the reader if its digits are odd in number (`read_hexData`).  What is printed
for the item is one of the spellings, and is read as the same item wherever an item may stand.
-/

namespace YulTree

open Lexeme

/-- The lexemes of a data item as it is written. -/
theorem Lexeme.ahead_render (entry : Data) (lead : Text) (start : Nat) (rest : Text) :
    ∃ nameStart valueStart,
      ahead lead start (entry.render ++ rest) =
        ⟨lead, ⟨.dataKeyword, "data", start⟩⟩ ::
          ⟨[' '], ⟨.stringLiteral, Text.Quoted.encode entry.name, nameStart⟩⟩ ::
            ⟨[' '], ⟨.hexLiteral, hexLiteral entry.bytes, valueStart⟩⟩ ::
              ahead [] (start + entry.render.byteSize) rest := by
  have written : entry.render =
      'd' :: (['a', 't', 'a'] ++ (' ' :: (Text.Quoted.encode entry.name ++
        ' ' :: hexLiteral entry.bytes))) := by
    unfold Data.render hexLiteral
    simp
  have size : entry.render.byteSize =
      Text.byteSize ('d' :: ['a', 't', 'a']) + Text.byteSize [' '] +
        (Text.Quoted.encode entry.name).byteSize + Text.byteSize [' '] +
        (hexLiteral entry.bytes).byteSize := by
    rw [written]
    simp only [Text.byteSize_append, Text.byteSize_cons, Text.byteSize_nil]
    omega
  have cut : entry.render ++ rest =
      'd' :: (['a', 't', 'a'] ++
        ' ' :: (Text.Quoted.encode entry.name ++ ' ' :: (hexLiteral entry.bytes ++ rest))) := by
    simp [written]
  have isEnd : Piece.isWordRest ' ' = false := rfl
  have starts : Piece.Initial.ofChar 'd' = .letter := rfl
  have goesOn : ∀ d ∈ ['a', 't', 'a'], Piece.isWordRest d = true := List.all_eq_true.mp rfl
  have row := ahead_word starts goesOn
    (ends_cons isEnd (Text.Quoted.encode entry.name ++ ' ' :: (hexLiteral entry.bytes ++ rest)))
    (by decide) lead start
  rw [← cut, ahead_space (c := ' ') rfl, ahead_encode, ahead_space (c := ' ') rfl,
    ahead_hexLiteral] at row
  rw [size]
  simp only [← Nat.add_assoc]
  exact ⟨_, _, row⟩

namespace Reader

variable {κ : Type}

theorem resume_append {reader : Reader κ} {state next : State κ} {front : List Lexeme}
    (reached : reader.run state front = .ok next) (size : Nat) (rest : List Lexeme) :
    reader.resume size state (front ++ rest) = reader.resume size next rest := by
  unfold resume run at *
  rw [List.foldlM_append, reached]
  rfl

/-- The next lexeme starts at a position of the source, and the reader gets there in a state. -/
def StandsAt (reader : Reader κ) (source : Text) (position : Nat) (state : State κ) : Prop :=
  ∃ front lexeme rest, Lexeme.all source = front ++ lexeme :: rest ∧
    lexeme.token.start = position ∧ reader.run (.start none) front = .ok state

/-- From a place on, a source is read by what stands there. -/
theorem StandsAt.read_eq {reader : Reader κ} {before text : Text} {state : State κ}
    (stands : reader.StandsAt (before ++ text) before.byteSize state) :
    ∃ lead, reader.read (before ++ text) =
        reader.resume (before ++ text).byteSize state (ahead lead before.byteSize text) ∧
      ∀ lexeme ∈ ahead lead before.byteSize text, lexeme.token ∈ Token.scan (before ++ text) := by
  obtain ⟨front, lexeme, rest, row, start, reached⟩ := stands
  obtain ⟨other, back, sameText, otherSize, tail⟩ := exists_ahead_of_row row
  rw [start] at otherSize tail
  obtain ⟨part, sameFront, sameBack⟩ := Text.exists_between_cuts sameText.symm (Nat.le_of_eq otherSize)
  have noPart : part = [] := by
    have sizes := congrArg Text.byteSize sameFront
    rw [Text.byteSize_append, otherSize] at sizes
    exact Text.eq_nil_of_byteSize_eq_zero (by omega)
  rw [noPart, List.nil_append] at sameBack
  rw [sameBack] at tail
  refine ⟨lexeme.lead, ?_, ?_⟩
  · rw [read_eq_resume, row, resume_append reached, tail]
  · intro other member
    have listed : other ∈ Lexeme.all (before ++ text) := by
      rw [row, tail]
      exact List.mem_append_right _ member
    exact token_mem_scan listed

def hexAt (quote : Char) (digits : Text) (position : Nat) : Token :=
  ⟨.hexLiteral, hexQuoted quote digits, position⟩

theorem hexDigits_hexQuoted (quote : Char) (digits : Text) :
    hexDigits (hexQuoted quote digits) = digits.filter (· != '_') := by
  simp [hexDigits, hexQuoted, Text.interior]

theorem readBytes_of_spelling {bytes : Bytes} {digits : Text}
    (spelling : Bytes.HexSpelling bytes digits) (quote : Char) (start : Nat) :
    readBytes (hexAt quote digits start) = .ok bytes := by
  unfold readBytes hexAt
  rw [hexDigits_hexQuoted, Bytes.ofHex?_of_spelling spelling]

theorem readBytes_of_isOddHex {digits : Text} (isOdd : Bytes.IsOddHex digits) (quote : Char)
    (start : Nat) :
    readBytes (hexAt quote digits start) =
      .error ⟨.oddHexDigits, (hexAt quote digits start).span⟩ := by
  unfold readBytes hexAt
  simp only [hexDigits_hexQuoted, Bytes.ofHex?_of_isOddHex isOdd]

theorem readText_encode (name : Text) (start : Nat) :
    readText ⟨.stringLiteral, Text.Quoted.encode name, start⟩ = .ok name := by
  simp only [readText, Text.Quoted.decodeLiteral_encode, Text.ofBytes?_toBytes]

/-- What is read when a data item stands in an object, and the rest of the source behind it. -/
def resumeBehind (reader : Reader κ) (size : Nat) (level : Level κ) (outer : List (Level κ))
    (entry : Data) (nameSpan : Span) (rest : List Lexeme) : Except ReadError (Object κ) :=
  (level.attach (.data entry) nameSpan).bind fun grown =>
    reader.resume size (.items grown outer) rest

theorem resume_value {reader : Reader κ} {size : Nat} {name : Text} {bytes : Bytes}
    {nameSpan : Span} {level : Level κ} {outer : List (Level κ)} {lexeme : Lexeme}
    (isValue : readBytes lexeme.token = .ok bytes) (rest : List Lexeme) :
    reader.resume size (.dataName name nameSpan level outer) (lexeme :: rest) =
      reader.resumeBehind size level outer ⟨name, bytes⟩ nameSpan rest := by
  rw [resume_cons, resumeBehind]
  simp only [step, isValue, Except.bind]
  cases level.attach (.data ⟨name, bytes⟩) nameSpan <;> rfl

/-- The written form of a data item is read as the item, wherever an item may stand. -/
theorem read_render {reader : Reader κ} {before after : Text} {state : State κ} {level : Level κ}
    {outer : List (Level κ)} (entry : Data)
    (isItem : state = .opened level outer ∨ state = .items level outer)
    (stands : reader.StandsAt (before ++ (entry.render ++ after)) before.byteSize state) :
    ∃ nameSpan, reader.read (before ++ (entry.render ++ after)) =
      reader.resumeBehind (before ++ (entry.render ++ after)).byteSize level outer entry nameSpan
        (ahead [] (before ++ entry.render).byteSize after) := by
  obtain ⟨lead, read, -⟩ := stands.read_eq
  obtain ⟨nameStart, valueStart, row⟩ := ahead_render entry lead before.byteSize after
  have keyword : reader.step state ⟨lead, ⟨.dataKeyword, "data", before.byteSize⟩⟩ =
      .ok (.dataKeyword level outer) := by
    rcases isItem with rfl | rfl <;> rfl
  have name : reader.step (.dataKeyword level outer)
        ⟨[' '], ⟨.stringLiteral, Text.Quoted.encode entry.name, nameStart⟩⟩ =
      .ok (.dataName entry.name
        (Token.span ⟨.stringLiteral, Text.Quoted.encode entry.name, nameStart⟩) level outer) := by
    simp only [step, readText_encode]
    rfl
  have value : readBytes ⟨.hexLiteral, hexLiteral entry.bytes, valueStart⟩ = .ok entry.bytes := by
    rw [hexLiteral_eq]
    exact readBytes_of_spelling (Bytes.spelling_toHex entry.bytes) '"' valueStart
  refine ⟨Token.span ⟨.stringLiteral, Text.Quoted.encode entry.name, nameStart⟩, ?_⟩
  rw [read, row, resume_of_step keyword, resume_of_step name, resume_value value,
    Text.byteSize_append before entry.render]

/-- A data item is written with the one spelling of its bytes that has small letters and no
underscores, and what is written is read as the item. -/
structure WrittenBack (reader : Reader κ) (entry : Data) : Prop where
  render : entry.render =
    "data " ++ Text.Quoted.encode entry.name ++ " " ++ hexQuoted '"' entry.bytes.toHex
  canonical : ∀ digits, digits = entry.bytes.toHex ↔
    Bytes.HexSpelling entry.bytes digits ∧ ∀ c ∈ digits, c ∈ Bytes.smallDigits
  reread : ∀ (before after : Text) (level : Level κ) (outer : List (Level κ)) (state : State κ),
    state = .opened level outer ∨ state = .items level outer →
      reader.StandsAt (before ++ (entry.render ++ after)) before.byteSize state →
        ∃ nameSpan, reader.read (before ++ (entry.render ++ after)) =
          reader.resumeBehind (before ++ (entry.render ++ after)).byteSize level outer entry
            nameSpan (ahead [] (before ++ entry.render).byteSize after)

theorem writtenBack (reader : Reader κ) (entry : Data) : reader.WrittenBack entry where
  render := by
    unfold Data.render hexQuoted
    simp
  canonical digits := by
    constructor
    · rintro rfl
      exact ⟨Bytes.spelling_toHex _, fun _ => Bytes.mem_smallDigits_of_mem_toHex⟩
    · rintro ⟨spelling, small⟩
      exact Bytes.eq_toHex_of_spelling spelling small
  reread _ _ _ _ _ isItem stands := read_render entry isItem stands

/-- A data item gets the bytes that its hexadecimal literal spells, in any letter case, with any
underscores and in any quotation marks, and is written back with the same bytes.  A literal with an
odd number of digits is the error of the reading. -/
theorem read_hexData {reader : Reader κ} {before after digits name : Text} {quote : Char}
    {nameSpan : Span} {level : Level κ} {outer : List (Level κ)}
    (quotes : Piece.isQuote quote = true)
    (stands : reader.StandsAt (before ++ (hexQuoted quote digits ++ after)) before.byteSize
      (.dataName name nameSpan level outer)) :
    (∀ bytes, Bytes.HexSpelling bytes digits →
      hexAt quote digits before.byteSize ∈
          Token.scan (before ++ (hexQuoted quote digits ++ after)) ∧
        reader.read (before ++ (hexQuoted quote digits ++ after)) =
          reader.resumeBehind (before ++ (hexQuoted quote digits ++ after)).byteSize level outer
            ⟨name, bytes⟩ nameSpan
            (ahead [] (before ++ hexQuoted quote digits).byteSize after) ∧
        reader.WrittenBack ⟨name, bytes⟩) ∧
      (Bytes.IsOddHex digits →
        hexAt quote digits before.byteSize ∈
            Token.scan (before ++ (hexQuoted quote digits ++ after)) ∧
          reader.read (before ++ (hexQuoted quote digits ++ after)) =
            .error ⟨.oddHexDigits, (hexAt quote digits before.byteSize).span⟩) := by
  obtain ⟨lead, read, isToken⟩ := stands.read_eq
  have row (hexadecimal : ∀ c ∈ digits, Piece.isHexRest c = true) :=
    ahead_hexQuoted quotes hexadecimal lead before.byteSize after
  constructor
  · intro bytes spelling
    have first := row (Bytes.isHexRest_of_spelling spelling)
    refine ⟨isToken _ (first ▸ List.mem_cons_self), ?_, reader.writtenBack ⟨name, bytes⟩⟩
    rw [read, first, resume_value (readBytes_of_spelling spelling quote before.byteSize),
      Text.byteSize_append before (hexQuoted quote digits)]
  · intro isOdd
    have first := row (Bytes.isHexRest_of_isOddHex isOdd)
    have failed := readBytes_of_isOddHex isOdd quote before.byteSize
    refine ⟨isToken _ (first ▸ List.mem_cons_self), ?_⟩
    rw [read, first, resume_cons]
    simp only [hexAt] at failed
    simp only [step, failed]
    rfl

/-- The front of an object, up to the value of its first data item. -/
def beforeValue : Text := "object \"A\" \x7b data \"d\" "

def lexemesBeforeValue : List Lexeme :=
  [⟨[], ⟨.objectKeyword, "object", 0⟩⟩, ⟨[' '], ⟨.stringLiteral, "\"A\"", 7⟩⟩,
    ⟨[' '], ⟨.openBrace, "\x7b", 11⟩⟩, ⟨[' '], ⟨.dataKeyword, "data", 13⟩⟩,
    ⟨[' '], ⟨.stringLiteral, "\"d\"", 18⟩⟩]

def levelBeforeValue : Level Unit := ⟨Object.new "A", ⟨7, 10⟩, ⟨11, 12⟩⟩

theorem run_lexemesBeforeValue :
    (Reader.mk 1 fun _ => ()).run (.start none) lexemesBeforeValue =
      .ok (.dataName "d" ⟨18, 21⟩ levelBeforeValue []) := rfl

/-- One byte with underscores and a capital letter is read, and one digit more is not. -/
theorem read_hexData_underscored :
    Piece.isQuote '\'' = true ∧ Bytes.HexSpelling [10] "_0_A" ∧ Bytes.IsOddHex "_0_A1" ∧
      (Reader.mk 1 fun _ => ()).read (beforeValue ++ (hexQuoted '\'' "_0_A" ++ " \x7d")) =
        (Reader.mk 1 fun _ => ()).resumeBehind 33 levelBeforeValue [] ⟨"d", [10]⟩ ⟨18, 21⟩
          (ahead [] 31 " \x7d") ∧
      (Reader.mk 1 fun _ => ()).read (beforeValue ++ (hexQuoted '\'' "_0_A1" ++ " \x7d")) =
        .error ⟨.oddHexDigits, ⟨22, 32⟩⟩ := by
  have spelling : Bytes.HexSpelling [10] "_0_A" := by
    have isGap : ∀ c ∈ ['_'], c = '_' := fun c member => List.mem_singleton.mp member
    exact .underscore (.byte (.inl rfl) isGap (.inr rfl) .nil)
  have isOdd : Bytes.IsOddHex "_0_A1" := by
    have listed : ∀ c ∈ ("_0_A1" : Text),
        (c == '_' || (Bytes.smallDigits ++ Bytes.capitalDigits).contains c) = true :=
      List.all_eq_true.mp rfl
    refine ⟨fun c member => ?_, by decide⟩
    simpa using listed c member
  have standsEven : (Reader.mk 1 fun _ => ()).StandsAt
      (beforeValue ++ (hexQuoted '\'' "_0_A" ++ " \x7d")) beforeValue.byteSize
      (.dataName "d" ⟨18, 21⟩ levelBeforeValue []) :=
    ⟨lexemesBeforeValue, ⟨[' '], hexAt '\'' "_0_A" 22⟩, [⟨[' '], ⟨.closeBrace, "\x7d", 32⟩⟩],
      by decide +kernel, by decide, run_lexemesBeforeValue⟩
  have standsOdd : (Reader.mk 1 fun _ => ()).StandsAt
      (beforeValue ++ (hexQuoted '\'' "_0_A1" ++ " \x7d")) beforeValue.byteSize
      (.dataName "d" ⟨18, 21⟩ levelBeforeValue []) :=
    ⟨lexemesBeforeValue, ⟨[' '], hexAt '\'' "_0_A1" 22⟩, [⟨[' '], ⟨.closeBrace, "\x7d", 33⟩⟩],
      by decide +kernel, by decide, run_lexemesBeforeValue⟩
  exact ⟨rfl, spelling, isOdd, ((read_hexData rfl standsEven).1 [10] spelling).2.1,
    ((read_hexData rfl standsOdd).2 isOdd).2⟩

end Reader

end YulTree

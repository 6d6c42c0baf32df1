import YulTree.Proofs.Text.Encode
import YulTree.Proofs.Token.Cut
import YulTree.Proofs.Token.Row

/-!
# Lexemes of what is printed

How each text that a printer writes is cut into lexemes, whatever follows it: words, marks,
literals, pragmas and blank space.
-/

namespace YulTree

namespace Token

/-- A token of a text that stands some bytes further on. -/
def moved (distance : Nat) (token : Token) : Token :=
  { token with start := distance + token.start }

theorem place_moved (distance start : Nat) (parts : List (TokenKind × Text)) :
    place (distance + start) parts = (place start parts).map (moved distance) := by
  induction parts generalizing start with
  | nil => rfl
  | cons part rest inductionHypothesis =>
      obtain ⟨kind, text⟩ := part
      rw [place, place, List.map_cons, Nat.add_assoc, inductionHypothesis]
      rfl

/-- A text that begins with a token has the tokens of what is behind it, moved on. -/
theorem scan_of_cut {c : Char} {rest text after : Text} {kind : TokenKind}
    (cut : Piece.firstPiece c rest = (⟨some kind, text⟩, after)) :
    scan (c :: rest) = ⟨kind, text, 0⟩ :: (scan after).map (moved text.byteSize) := by
  rw [scan, Piece.all, cut, merge, place, Nat.zero_add, scan]
  exact congrArg _ (place_moved text.byteSize 0 _)

end Token

namespace Lexeme

open Piece

/-- The lexemes of a text that stands at a position, behind some trivia. -/
def ahead (lead : Text) (start : Nat) (text : Text) : List Lexeme :=
  onward lead start (Token.merge (Piece.all text))

theorem all_eq_ahead (source : Text) : all source = ahead [] 0 source := rfl

theorem ahead_nil (lead : Text) (start : Nat) : ahead lead start [] = [] := by
  rw [ahead, Piece.all]
  rfl

theorem ahead_token {c : Char} {rest text after : Text} {kind : TokenKind}
    (cut : firstPiece c rest = (⟨some kind, text⟩, after)) (notTrivia : kind.isTrivia = false)
    (lead : Text) (start : Nat) :
    ahead lead start (c :: rest) =
      ⟨lead, ⟨kind, text, start⟩⟩ :: ahead [] (start + text.byteSize) after := by
  rw [ahead, Piece.all, cut, Token.merge, onward_token notTrivia]
  rfl

theorem ahead_trivia {c : Char} {rest text after : Text} {kind : TokenKind}
    (cut : firstPiece c rest = (⟨some kind, text⟩, after)) (isTrivia : kind.isTrivia = true)
    (lead : Text) (start : Nat) :
    ahead lead start (c :: rest) = ahead (lead ++ text) (start + text.byteSize) after := by
  rw [ahead, Piece.all, cut, Token.merge, onward_trivia isTrivia]
  rfl

/-- From any lexeme on, the lexemes of a source are those of the text from there on. -/
theorem exists_ahead_of_row {source : Text} {before after : List Lexeme} {lexeme : Lexeme}
    (row : all source = before ++ lexeme :: after) :
    ∃ front text, source = front ++ text ∧ front.byteSize = lexeme.token.start ∧
      lexeme :: after = ahead lexeme.lead lexeme.token.start text := by
  obtain ⟨front, back, parts, -, start, -, rfl⟩ := onward_eq_append row
  have whole := Token.flatten_merge_all source
  have member : lexeme ∈ all source := row ▸ List.mem_append_right before List.mem_cons_self
  have notTrivia : lexeme.kind.isTrivia = false :=
    (Token.mem_significant_iff.mp (token_mem_significant member)).2
  rw [parts, List.map_append, List.flatten_append] at whole
  refine ⟨_, _, whole.symm, by rw [start, Nat.zero_add], ?_⟩
  rw [ahead, ← Token.merge_all_behind parts, onward_token notTrivia]
  rfl

theorem initial_of_isSpace {c : Char} (space : isSpace c = true) :
    Initial.ofChar c = .space := by
  simp only [isSpace, Bool.or_eq_true, beq_iff_eq] at space
  rcases space with ((rfl | rfl) | rfl) | rfl <;> rfl

theorem firstPiece_space {c : Char} (space : isSpace c = true) (rest : Text) :
    firstPiece c rest =
      (⟨some .whitespace, c :: rest.takeWhile isSpace⟩, rest.dropWhile isSpace) := by
  unfold firstPiece
  rw [initial_of_isSpace space]
  rfl

theorem ahead_space {c : Char} (space : isSpace c = true) (lead : Text) (start : Nat)
    (rest : Text) :
    ahead lead start (c :: rest) = ahead (lead ++ [c]) (start + Text.byteSize [c]) rest := by
  rw [ahead_trivia (firstPiece_space space rest) rfl]
  cases rest with
  | nil => rfl
  | cons d others =>
      cases spaceNext : isSpace d with
      | true =>
          rw [ahead_trivia (firstPiece_space spaceNext others) rfl,
            List.takeWhile_cons_of_pos spaceNext, List.dropWhile_cons_of_pos spaceNext]
          simp [Nat.add_assoc]
      | false =>
          rw [List.takeWhile_cons_of_neg (by simp [spaceNext]),
            List.dropWhile_cons_of_neg (by simp [spaceNext])]

/-- Blank space is trivia, whatever follows it. -/
theorem ahead_spaces {blanks : Text} (spaces : ∀ c ∈ blanks, isSpace c = true) (lead : Text)
    (start : Nat) (rest : Text) :
    ahead lead start (blanks ++ rest) =
      ahead (lead ++ blanks) (start + blanks.byteSize) rest := by
  induction blanks generalizing lead start with
  | nil => simp
  | cons c others inductionHypothesis =>
      rw [List.cons_append, ahead_space (spaces c List.mem_cons_self),
        inductionHypothesis fun d member => spaces d (List.mem_cons_of_mem _ member)]
      simp [Nat.add_assoc]

/-- What passes a test up to a character that fails it. -/
theorem span_of_ends {test : Char → Bool} {front rest : Text}
    (goesOn : ∀ d ∈ front, test d = true) (ends : ∀ d ∈ rest.head?, test d = false) :
    (front ++ rest).takeWhile test = front ∧ (front ++ rest).dropWhile test = rest := by
  rw [List.takeWhile_append_of_pos goesOn, List.dropWhile_append_of_pos goesOn]
  cases rest with
  | nil => simp
  | cons d others =>
      have stops : ¬ test d = true := by simp [ends d rfl]
      simp [stops]

theorem ends_cons {test : Char → Bool} {c : Char} (fails : test c = false) (rest : Text) :
    ∀ d ∈ (c :: rest).head?, test d = false := by
  intro d member
  rw [← Option.some.inj member]
  exact fails

theorem ahead_openBrace (lead : Text) (start : Nat) (rest : Text) :
    ahead lead start ('\x7b' :: rest) =
      ⟨lead, ⟨.openBrace, ['\x7b'], start⟩⟩ :: ahead [] (start + Text.byteSize ['\x7b']) rest :=
  ahead_token rfl rfl lead start

theorem ahead_closeBrace (lead : Text) (start : Nat) (rest : Text) :
    ahead lead start ('\x7d' :: rest) =
      ⟨lead, ⟨.closeBrace, ['\x7d'], start⟩⟩ :: ahead [] (start + Text.byteSize ['\x7d']) rest :=
  ahead_token rfl rfl lead start

theorem ahead_comma (lead : Text) (start : Nat) (rest : Text) :
    ahead lead start (',' :: rest) =
      ⟨lead, ⟨.punctuation, [','], start⟩⟩ :: ahead [] (start + Text.byteSize [',']) rest :=
  ahead_token rfl rfl lead start

theorem ahead_colon {rest : Text} (noAssignment : rest.head? ≠ some '=') (lead : Text)
    (start : Nat) :
    ahead lead start (':' :: rest) =
      ⟨lead, ⟨.punctuation, [':'], start⟩⟩ :: ahead [] (start + Text.byteSize [':']) rest := by
  refine ahead_token ?_ rfl lead start
  change colonPiece rest = _
  rw [colonPiece, if_neg noAssignment]
  rfl

/-- A word ends at the first character that it cannot go on with. -/
theorem ahead_word {c : Char} {letters rest : Text} (starts : Initial.ofChar c = .letter)
    (goesOn : ∀ d ∈ letters, isWordRest d = true) (ends : ∀ d ∈ rest.head?, isWordRest d = false)
    (notHex : c :: letters ≠ ("hex" : Text)) (lead : Text) (start : Nat) :
    ahead lead start (c :: (letters ++ rest)) =
      ⟨lead, ⟨wordKind (c :: letters), c :: letters, start⟩⟩ ::
        ahead [] (start + Text.byteSize (c :: letters)) rest := by
  obtain ⟨taken, left⟩ := span_of_ends goesOn ends
  have isWord : (wordKind (c :: letters)).isTrivia = false := by
    rcases wordKind_cases (c :: letters) with kind | kind | kind | kind <;> rw [kind] <;> rfl
  refine ahead_token ?_ isWord lead start
  unfold firstPiece
  rw [starts]
  simp only [wordPiece, taken, left, if_neg notHex]

theorem firstPiece_encode (name rest : Text) :
    ∃ inner, Text.Quoted.encode name ++ rest = '"' :: inner ∧
      firstPiece '"' inner = (⟨some .stringLiteral, Text.Quoted.encode name⟩, rest) := by
  refine ⟨name.flatMap Text.Quoted.encodeChar ++ '"' :: rest, ?_, ?_⟩
  · rw [Text.Quoted.encode, List.cons_append, List.append_assoc, List.singleton_append]
  · change ofRun .stringLiteral ((quotedRun '"' _).prepend ['"']) = _
    rw [Text.Quoted.quotedRun_encode]
    rfl

theorem ahead_encode (name : Text) (lead : Text) (start : Nat) (rest : Text) :
    ahead lead start (Text.Quoted.encode name ++ rest) =
      ⟨lead, ⟨.stringLiteral, Text.Quoted.encode name, start⟩⟩ ::
        ahead [] (start + Text.byteSize (Text.Quoted.encode name)) rest := by
  obtain ⟨inner, text, cut⟩ := firstPiece_encode name rest
  rw [text]
  exact ahead_token cut rfl lead start

theorem isHexRest_of_mem_toHex {bytes : Bytes} {c : Char} (member : c ∈ bytes.toHex) :
    isHexRest c = true ∧ c ≠ '_' := by
  have checked : ∀ m : Fin 16,
      isHexRest (Nat.digitChar m.val) = true ∧ Nat.digitChar m.val ≠ '_' := by
    decide
  obtain ⟨byte, -, isDigit⟩ := List.mem_flatMap.mp member
  have bound := byte.toNat_lt
  simp only [Bytes.hexOfByte, List.mem_cons, List.not_mem_nil, or_false] at isDigit
  rcases isDigit with rfl | rfl
  · exact checked ⟨byte.toNat / 16, by omega⟩
  · exact checked ⟨byte.toNat % 16, Nat.mod_lt _ (by decide)⟩

theorem initial_of_isDigit {c : Char} (digit : c.isDigit = true) :
    Initial.ofChar c = .digit := by
  have different : ∀ d : Char, d.isDigit = false → c ≠ d := by
    rintro d notDigit rfl
    rw [digit] at notDigit
    cases notDigit
  have notQuote : isQuote c = false := by
    simp [isQuote, different '"' rfl, different '\'' rfl]
  have notSpace : isSpace c = false := by
    simp [isSpace, different ' ' rfl, different '\t' rfl, different '\r' rfl,
      different '\n' rfl]
  simp [Initial.ofChar, different '\x7b' rfl, different '\x7d' rfl, different '(' rfl,
    different ')' rfl, different ',' rfl, different ':' rfl, different '-' rfl,
    different '/' rfl, notQuote, notSpace, digit]

theorem ahead_number {c : Char} {digits rest : Text} (starts : c.isDigit = true)
    (goesOn : ∀ d ∈ digits, d.isDigit = true) (ends : ∀ d ∈ rest.head?, isNumberRest d = false)
    (lead : Text) (start : Nat) :
    ahead lead start (c :: (digits ++ rest)) =
      ⟨lead, ⟨.number, c :: digits, start⟩⟩ ::
        ahead [] (start + Text.byteSize (c :: digits)) rest := by
  have numberRest : ∀ d ∈ digits, isNumberRest d = true := by
    intro d member
    simp [isNumberRest, Char.isAlphanum, goesOn d member]
  obtain ⟨taken, left⟩ := span_of_ends numberRest ends
  refine ahead_token ?_ rfl lead start
  unfold firstPiece
  rw [initial_of_isDigit starts]
  simp only [spanPiece, taken, left]

/-- Two slashes begin a comment or a pragma, which goes on up to a line feed or the end. -/
theorem firstPiece_lineComment {content rest : Text} (unbroken : '\n' ∉ content)
    (ends : ∀ d ∈ rest.head?, d = '\n') :
    firstPiece '/' ('/' :: (content ++ rest)) =
      (⟨some (if (pragmaPayload? ('/' :: '/' :: content)).isSome then .pragma else .lineComment),
        '/' :: '/' :: content⟩, rest) := by
  have goesOn : ∀ d ∈ content, (d != '\n') = true := by
    intro d member
    rw [bne_iff_ne]
    rintro rfl
    exact unbroken member
  have stops : ∀ d ∈ rest.head?, (d != '\n') = false := by
    intro d member
    simp [ends d member]
  obtain ⟨taken, left⟩ := span_of_ends goesOn stops
  change lineCommentPiece (content ++ rest) = _
  rw [lineCommentPiece, taken, left]

theorem firstPiece_pragma {content : Text} (unbroken : '\n' ∉ content)
    (isPragma : (pragmaPayload? ('/' :: '/' :: content)).isSome = true) (rest : Text) :
    firstPiece '/' ('/' :: (content ++ '\n' :: rest)) =
      (⟨some .pragma, '/' :: '/' :: content⟩, '\n' :: rest) := by
  have ends : ∀ d ∈ ('\n' :: rest).head?, d = '\n' := fun _ member =>
    (Option.some.inj member).symm
  rw [firstPiece_lineComment unbroken ends, if_pos isPragma]

theorem ahead_pragma {content : Text} (unbroken : '\n' ∉ content)
    (isPragma : (pragmaPayload? ('/' :: '/' :: content)).isSome = true) (lead : Text)
    (start : Nat) (rest : Text) :
    ahead lead start ('/' :: '/' :: (content ++ '\n' :: rest)) =
      ⟨lead, ⟨.pragma, '/' :: '/' :: content, start⟩⟩ ::
        ahead [] (start + Text.byteSize ('/' :: '/' :: content)) ('\n' :: rest) :=
  ahead_token (firstPiece_pragma unbroken isPragma rest) rfl lead start

def hexQuoted (quote : Char) (digits : Text) : Text :=
  'h' :: 'e' :: 'x' :: quote :: (digits ++ [quote])

/-- Digits and underscores between two equal quotation marks are one literal, whatever follows. -/
theorem firstPiece_hexQuoted {quote : Char} (quotes : isQuote quote = true) {digits : Text}
    (hexadecimal : ∀ c ∈ digits, isHexRest c = true) (rest : Text) :
    firstPiece 'h' ('e' :: 'x' :: quote :: (digits ++ quote :: rest)) =
      (⟨some .hexLiteral, hexQuoted quote digits⟩, rest) := by
  have stops : isHexRest quote = false ∧ isWordRest quote = false := by
    simp only [isQuote, Bool.or_eq_true, beq_iff_eq] at quotes
    rcases quotes with rfl | rfl <;> decide
  obtain ⟨taken, left⟩ := span_of_ends hexadecimal (ends_cons stops.1 rest)
  have found : hexDigits? (quote :: (digits ++ quote :: rest)) =
      some (quote :: (digits ++ [quote]), rest) := by
    simp [hexDigits?, taken, left, quotes]
  have isWord : firstPiece 'h' ('e' :: 'x' :: quote :: (digits ++ quote :: rest)) =
      wordPiece 'h' ('e' :: 'x' :: quote :: (digits ++ quote :: rest)) := rfl
  have letters : ∀ c ∈ ['e', 'x'], isWordRest c = true := List.all_eq_true.mp rfl
  obtain ⟨word, behind⟩ :=
    span_of_ends letters (ends_cons stops.2 (digits ++ quote :: rest))
  simp only [List.cons_append, List.nil_append] at word behind
  rw [isWord]
  simp only [wordPiece, word, behind, found]
  rfl

def hexLiteral (bytes : Bytes) : Text := "hex\"" ++ bytes.toHex ++ "\""

theorem hexLiteral_eq (bytes : Bytes) : hexLiteral bytes = hexQuoted '"' bytes.toHex := by
  simp [hexLiteral, hexQuoted]

theorem ahead_hexQuoted {quote : Char} (quotes : isQuote quote = true) {digits : Text}
    (hexadecimal : ∀ c ∈ digits, isHexRest c = true) (lead : Text) (start : Nat) (rest : Text) :
    ahead lead start (hexQuoted quote digits ++ rest) =
      ⟨lead, ⟨.hexLiteral, hexQuoted quote digits, start⟩⟩ ::
        ahead [] (start + (hexQuoted quote digits).byteSize) rest := by
  have cut : hexQuoted quote digits ++ rest =
      'h' :: 'e' :: 'x' :: quote :: (digits ++ quote :: rest) := by
    simp [hexQuoted]
  rw [cut]
  exact ahead_token (firstPiece_hexQuoted quotes hexadecimal rest) rfl lead start

theorem ahead_hexLiteral (bytes : Bytes) (lead : Text) (start : Nat) (rest : Text) :
    ahead lead start (hexLiteral bytes ++ rest) =
      ⟨lead, ⟨.hexLiteral, hexLiteral bytes, start⟩⟩ ::
        ahead [] (start + (hexLiteral bytes).byteSize) rest := by
  rw [hexLiteral_eq]
  exact ahead_hexQuoted rfl (fun _ member => (isHexRest_of_mem_toHex member).1) lead start rest

/-- The lexemes of parts up to a token, and what they cover. -/
theorem onward_append_token {kind : TokenKind} (notTrivia : kind.isTrivia = false) (text : Text)
    (back : List (TokenKind × Text)) (parts : List (TokenKind × Text)) (lead : Text)
    (start : Nat) :
    ∃ inner leadBehind stop,
      onward lead start (parts ++ (kind, text) :: back) =
        inner ++ ⟨leadBehind, ⟨kind, text, stop⟩⟩ :: onward [] (stop + text.byteSize) back ∧
      lead ++ (parts.map Prod.snd).flatten = Lexeme.text inner ++ leadBehind ∧
      inner.map Lexeme.kind = (parts.map Prod.fst).filter (fun kind => !kind.isTrivia) := by
  induction parts generalizing lead start with
  | nil =>
      refine ⟨[], lead, start, onward_token notTrivia lead text start back, ?_, rfl⟩
      simp [Lexeme.text]
  | cons part rest inductionHypothesis =>
      obtain ⟨partKind, partText⟩ := part
      cases isTrivia : partKind.isTrivia with
      | true =>
          obtain ⟨inner, leadBehind, stop, row, texts, kinds⟩ :=
            inductionHypothesis (lead ++ partText) (start + partText.byteSize)
          refine ⟨inner, leadBehind, stop, ?_, ?_, ?_⟩
          · rw [List.cons_append, onward_trivia isTrivia, row]
          · rw [← texts, List.map_cons, List.flatten_cons, List.append_assoc]
          · rw [kinds, List.map_cons, List.filter_cons_of_neg (by simp [isTrivia])]
      | false =>
          obtain ⟨inner, leadBehind, stop, row, texts, kinds⟩ :=
            inductionHypothesis [] (start + partText.byteSize)
          refine ⟨⟨lead, ⟨partKind, partText, start⟩⟩ :: inner, leadBehind, stop, ?_, ?_, ?_⟩
          · rw [List.cons_append, onward_token isTrivia, row]
            rfl
          · rw [List.nil_append] at texts
            rw [List.map_cons, List.flatten_cons, texts]
            simp [Lexeme.text, whole]
          · rw [List.map_cons, kinds, List.map_cons,
              List.filter_cons_of_pos (by simp [isTrivia])]
            rfl

end Lexeme

/-- What can stand between braces is cut off by the closing one as a balanced row of lexemes. -/
theorem Lexeme.ahead_enclosed {body : Text} (enclosed : body.IsEnclosed) (start : Nat)
    (rest : Text) :
    ∃ inner lead stop,
      ahead [] start (body ++ '\x7d' :: rest) =
        inner ++ ⟨lead, ⟨.closeBrace, ['\x7d'], stop⟩⟩ ::
          ahead [] (stop + Text.byteSize ['\x7d']) rest ∧
      Lexeme.text inner ++ lead = body ∧ Balanced (inner.map Lexeme.kind) := by
  obtain ⟨parts, cut, texts, balanced⟩ := Token.merge_all_cut enclosed rest
  obtain ⟨inner, lead, stop, row, innerTexts, kinds⟩ :=
    onward_append_token (rfl : TokenKind.closeBrace.isTrivia = false) ['\x7d']
      (Token.merge (Piece.all rest)) parts [] start
  refine ⟨inner, lead, stop, ?_, ?_, ?_⟩
  · rw [ahead, cut]
    exact row
  · rw [← innerTexts, texts, List.nil_append]
  · rw [kinds]
    exact Balanced.filter_iff.mpr balanced

end YulTree

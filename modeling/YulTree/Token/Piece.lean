import YulTree.Token.Basic

/-!
# Pieces

The longest token at the start of a text.  Where no token starts, the piece that is cut off
is all that some token could still have begun with.  The main statement,
`firstPiece_append`, says that a piece and the rest of the text make up the text.
-/

namespace YulTree

/-- What is cut off at the start of a text: a token, or input that is none. -/
structure Piece where
  kind : Option TokenKind
  text : Text
  deriving DecidableEq, Repr

/-- A text cut in two: the part that was taken, and whether it ends as it should. -/
structure Run where
  isComplete : Bool
  taken : Text
  rest : Text
  deriving DecidableEq, Repr

def Run.prepend (front : Text) (run : Run) : Run :=
  { run with taken := front ++ run.taken }

namespace Piece

/-- The part of a text up to the quotation mark that closes a literal.  A backslash hides the
character after it, and neither of the two may be followed over the end of a line. -/
def quotedRun (quote : Char) : Text → Run
  | [] => ⟨false, [], []⟩
  | c :: rest =>
      if c = quote then ⟨true, [c], rest⟩
      else if c = '\n' then ⟨false, [], c :: rest⟩
      else if c = '\\' then
        match rest with
        | [] => ⟨false, [c], []⟩
        | d :: rest =>
            if d = '\n' then ⟨false, [c], d :: rest⟩
            else (quotedRun quote rest).prepend [c, d]
      else (quotedRun quote rest).prepend [c]

def commentRun : Text → Run
  | [] => ⟨false, [], []⟩
  | c :: rest =>
      if c = '*' ∧ rest.head? = some '/' then ⟨true, [c, '/'], rest.tail⟩
      else (commentRun rest).prepend [c]

def isWordStart (c : Char) : Bool := c.isAlpha || c == '_' || c == '$'

def isWordRest (c : Char) : Bool := c.isAlphanum || c == '_' || c == '$' || c == '.'

def isNumberRest (c : Char) : Bool := c.isAlphanum || c == '_'

/-- The digits that stand in a hexadecimal literal, and the underscores between them. -/
def isHexRest (c : Char) : Bool :=
  c.isDigit || ('a' ≤ c && c ≤ 'f') || ('A' ≤ c && c ≤ 'F') || c == '_'

def isSpace (c : Char) : Bool := c == ' ' || c == '\t' || c == '\r' || c == '\n'

def isQuote (c : Char) : Bool := c == '"' || c == '\''

/-- The quoted digits behind the word `hex`, and the text after them. -/
def hexDigits? : Text → Option (Text × Text)
  | [] => none
  | quote :: rest =>
      let after := rest.dropWhile isHexRest
      if isQuote quote && after.head? == some quote then
        some (quote :: (rest.takeWhile isHexRest ++ [quote]), after.tail)
      else
        none

/-- A word that is spelled like a keyword is that keyword. -/
def wordKind (word : Text) : TokenKind :=
  if word = "object" then .objectKeyword
  else if word = "code" then .codeKeyword
  else if word = "data" then .dataKeyword
  else .identifier

/-- The word at the start of a text, or the hexadecimal literal that a word begins. -/
def wordPiece (c : Char) (rest : Text) : Piece × Text :=
  let word := c :: rest.takeWhile isWordRest
  let after := rest.dropWhile isWordRest
  if word = "hex" then
    match hexDigits? after with
    | some (digits, after) => (⟨some .hexLiteral, word ++ digits⟩, after)
    | none => (⟨some .identifier, word⟩, after)
  else
    (⟨some (wordKind word), word⟩, after)

/-- The comment or pragma that two slashes begin. -/
def lineCommentPiece (rest : Text) : Piece × Text :=
  let comment := '/' :: '/' :: rest.takeWhile (· != '\n')
  let kind := if (pragmaPayload? comment).isSome then .pragma else .lineComment
  (⟨some kind, comment⟩, rest.dropWhile (· != '\n'))

/-- A piece that is complete or else garbage. -/
def ofRun (kind : TokenKind) (run : Run) : Piece × Text :=
  (⟨if run.isComplete then some kind else none, run.taken⟩, run.rest)

def colonPiece (rest : Text) : Piece × Text :=
  if rest.head? = some '=' then (⟨some .punctuation, ":="⟩, rest.tail)
  else (⟨some .punctuation, ":"⟩, rest)

/-- An arrow; a lone dash is no token. -/
def dashPiece (rest : Text) : Piece × Text :=
  if rest.head? = some '>' then (⟨some .punctuation, "->"⟩, rest.tail)
  else (⟨none, "-"⟩, rest)

/-- A comment; a lone slash is no token. -/
def slashPiece (rest : Text) : Piece × Text :=
  if rest.head? = some '/' then lineCommentPiece rest.tail
  else if rest.head? = some '*' then
    ofRun .blockComment ((commentRun rest.tail).prepend "/*")
  else (⟨none, "/"⟩, rest)

def spanPiece (kind : TokenKind) (test : Char → Bool) (c : Char) (rest : Text) :
    Piece × Text :=
  (⟨some kind, c :: rest.takeWhile test⟩, rest.dropWhile test)

inductive Initial where
  | openBrace
  | closeBrace
  | mark
  | colon
  | dash
  | slash
  | quote
  | space
  | digit
  | letter
  | other
  deriving DecidableEq, Repr

/-- What a character says about the piece that it begins. -/
def Initial.ofChar (c : Char) : Initial :=
  if c = '\x7b' then .openBrace
  else if c = '\x7d' then .closeBrace
  else if c = '(' ∨ c = ')' ∨ c = ',' then .mark
  else if c = ':' then .colon
  else if c = '-' then .dash
  else if c = '/' then .slash
  else if isQuote c then .quote
  else if isSpace c then .space
  else if c.isDigit then .digit
  else if isWordStart c then .letter
  else .other

/-- The piece at the start of a text, and the text after it. -/
def firstPiece (c : Char) (rest : Text) : Piece × Text :=
  match Initial.ofChar c with
  | .openBrace => (⟨some .openBrace, [c]⟩, rest)
  | .closeBrace => (⟨some .closeBrace, [c]⟩, rest)
  | .mark => (⟨some .punctuation, [c]⟩, rest)
  | .colon => colonPiece rest
  | .dash => dashPiece rest
  | .slash => slashPiece rest
  | .quote => ofRun .stringLiteral ((quotedRun c rest).prepend [c])
  | .space => spanPiece .whitespace isSpace c rest
  | .digit => spanPiece .number isNumberRest c rest
  | .letter => wordPiece c rest
  | .other => (⟨none, [c]⟩, rest)

/-- A list that has a given head is that head and its tail. -/
private theorem cons_tail {c : Char} {text : Text} (head : text.head? = some c) :
    c :: text.tail = text := by
  cases text with
  | nil => simp at head
  | cons d rest =>
      simp only [List.head?_cons, Option.some.injEq] at head
      simp [head]

theorem quotedRun_append (quote : Char) (text : Text) :
    (quotedRun quote text).taken ++ (quotedRun quote text).rest = text := by
  fun_induction quotedRun quote text with
  | case1 | case2 | case3 | case4 | case5 => rfl
  | case6 d rest _ _ _ inductionHypothesis =>
      simp only [Run.prepend, List.cons_append, List.nil_append, inductionHypothesis]
  | case7 c rest _ _ _ inductionHypothesis =>
      simp only [Run.prepend, List.cons_append, List.nil_append, inductionHypothesis]

theorem commentRun_append (text : Text) :
    (commentRun text).taken ++ (commentRun text).rest = text := by
  fun_induction commentRun text with
  | case1 => rfl
  | case2 c rest closes => simp [cons_tail closes.2]
  | case3 c rest _ inductionHypothesis => simp [Run.prepend, inductionHypothesis]

theorem hexDigits?_append {text digits after : Text}
    (found : hexDigits? text = some (digits, after)) : digits ++ after = text := by
  cases text with
  | nil => simp [hexDigits?] at found
  | cons quote rest =>
      simp only [hexDigits?] at found
      split at found
      · next closes =>
          simp only [Bool.and_eq_true, beq_iff_eq] at closes
          simp only [Option.some.injEq, Prod.mk.injEq] at found
          obtain ⟨rfl, rfl⟩ := found
          simp [cons_tail closes.2, List.takeWhile_append_dropWhile]
      · exact nomatch found

theorem wordPiece_append (c : Char) (rest : Text) :
    (wordPiece c rest).1.text ++ (wordPiece c rest).2 = c :: rest := by
  simp only [wordPiece]
  split
  · split
    · next digits after found =>
        simp [hexDigits?_append found, List.takeWhile_append_dropWhile]
    · simp [List.takeWhile_append_dropWhile]
  · simp [List.takeWhile_append_dropWhile]

theorem colonPiece_append (rest : Text) :
    (colonPiece rest).1.text ++ (colonPiece rest).2 = ':' :: rest := by
  unfold colonPiece
  split
  · next assigns => simp [cons_tail assigns]
  · rfl

theorem dashPiece_append (rest : Text) :
    (dashPiece rest).1.text ++ (dashPiece rest).2 = '-' :: rest := by
  unfold dashPiece
  split
  · next pointed => simp [cons_tail pointed]
  · rfl

theorem slashPiece_append (rest : Text) :
    (slashPiece rest).1.text ++ (slashPiece rest).2 = '/' :: rest := by
  unfold slashPiece
  split
  · next doubled =>
      simp [lineCommentPiece, List.takeWhile_append_dropWhile, cons_tail doubled]
  · split
    · next starred => simp [ofRun, Run.prepend, commentRun_append, cons_tail starred]
    · rfl

theorem spanPiece_append (kind : TokenKind) (test : Char → Bool) (c : Char) (rest : Text) :
    (spanPiece kind test c rest).1.text ++ (spanPiece kind test c rest).2 = c :: rest := by
  simp [spanPiece, List.takeWhile_append_dropWhile]

/-- The characters that a piece must start with to begin in one of these ways. -/
theorem Initial.eq_of_ofChar {c : Char} :
    (Initial.ofChar c = .openBrace → c = '\x7b') ∧
      (Initial.ofChar c = .closeBrace → c = '\x7d') ∧
      (Initial.ofChar c = .colon → c = ':') ∧
      (Initial.ofChar c = .dash → c = '-') ∧
      (Initial.ofChar c = .slash → c = '/') := by
  fun_cases Initial.ofChar c <;> simp [*]

/-- A piece and the text after it make up the text. -/
theorem firstPiece_append (c : Char) (rest : Text) :
    (firstPiece c rest).1.text ++ (firstPiece c rest).2 = c :: rest := by
  obtain ⟨-, -, isColon, isDash, isSlash⟩ := Initial.eq_of_ofChar (c := c)
  unfold firstPiece
  cases initial : Initial.ofChar c with
  | openBrace | closeBrace | mark | other => rfl
  | colon => rw [isColon initial]; exact colonPiece_append rest
  | dash => rw [isDash initial]; exact dashPiece_append rest
  | slash => rw [isSlash initial]; exact slashPiece_append rest
  | quote => simp [ofRun, Run.prepend, quotedRun_append]
  | space => exact spanPiece_append .whitespace isSpace c rest
  | digit => exact spanPiece_append .number isNumberRest c rest
  | letter => exact wordPiece_append c rest

/-- A piece starts with the first character of the text. -/
theorem firstPiece_head? (c : Char) (rest : Text) :
    (firstPiece c rest).1.text.head? = some c := by
  obtain ⟨-, -, isColon, isDash, isSlash⟩ := Initial.eq_of_ofChar (c := c)
  cases initial : Initial.ofChar c with
  | openBrace | closeBrace | mark | other | quote | space | digit =>
      simp only [firstPiece, initial]
      rfl
  | colon =>
      obtain rfl := isColon initial
      simp only [firstPiece, initial, colonPiece]
      split <;> rfl
  | dash =>
      obtain rfl := isDash initial
      simp only [firstPiece, initial, dashPiece]
      split <;> rfl
  | slash =>
      obtain rfl := isSlash initial
      simp only [firstPiece, initial, slashPiece]
      split
      · rfl
      · split <;> rfl
  | letter =>
      simp only [firstPiece, initial, wordPiece]
      split
      · split <;> rfl
      · rfl

/-- What follows a piece is shorter than the text. -/
theorem firstPiece_rest_length (c : Char) (rest : Text) :
    (firstPiece c rest).2.length < (c :: rest).length := by
  have whole := congrArg List.length (firstPiece_append c rest)
  have head := firstPiece_head? c rest
  cases text : (firstPiece c rest).1.text with
  | nil => simp [text] at head
  | cons d taken =>
      rw [text] at whole
      simp only [List.cons_append, List.length_cons, List.length_append] at whole ⊢
      omega

end Piece

end YulTree

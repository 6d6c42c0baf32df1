import YulTree.Proofs.Token.Mode

/-!
# Pieces and the plain scan

A piece that is no brace hides whatever braces it contains from a plain scan, and behind every
piece the scan goes on as if nothing stood before (`marks_firstPiece`).  So the brace tokens of
a source are the braces that a plain scan of it sees (`scan_braces`).
-/

namespace YulTree

def Piece.brace? (kind : Option TokenKind) : Option TokenKind :=
  match kind with
  | some .openBrace => some .openBrace
  | some .closeBrace => some .closeBrace
  | _ => none

theorem Piece.eq_of_brace?_eq_some {kind own : TokenKind}
    (isBrace : brace? (some kind) = some own) : own = kind := by
  unfold brace? at isBrace
  split at isBrace
  · next same => exact (Option.some.inj isBrace).symm.trans (Option.some.inj same).symm
  · next same => exact (Option.some.inj isBrace).symm.trans (Option.some.inj same).symm
  · cases isBrace

def Token.isBrace (token : Token) : Bool := (Piece.brace? (some token.kind)).isSome

namespace Mode

/-- The marks of a text in which no brace is seen. -/
def unmarked (text : Text) : List (Option TokenKind) := text.map fun _ => none

@[simp]
theorem unmarked_nil : unmarked [] = [] := rfl

@[simp]
theorem unmarked_cons (c : Char) (rest : Text) :
    unmarked (c :: rest) = none :: unmarked rest := rfl

@[simp]
theorem unmarked_append (first second : Text) :
    unmarked (first ++ second) = unmarked first ++ unmarked second :=
  List.map_append

/-- A character that has no meaning to a plain scan where nothing is hidden. -/
def isInert (c : Char) : Bool :=
  c != '\x7b' && c != '\x7d' && c != '/' && c != '"' && c != '\''

theorem next_of_isInert {c : Char} (inert : isInert c = true) : Mode.plain.next c = .plain := by
  simp only [isInert, Bool.and_eq_true, bne_iff_ne, ne_eq] at inert
  simp only [next, opened, inert, if_false, or_self]

theorem mark_of_isInert {c : Char} (inert : isInert c = true) (mode : Mode) :
    mode.mark c = none := by
  simp only [isInert, Bool.and_eq_true, bne_iff_ne, ne_eq] at inert
  simp only [mark, brace?, inert, if_false, ite_self]

theorem marks_inert {text : Text} (inert : ∀ c ∈ text, isInert c = true) (rest : Text) :
    Mode.plain.marks (text ++ rest) = unmarked text ++ Mode.plain.marks rest := by
  induction text with
  | nil => rfl
  | cons c text inductionHypothesis =>
      have head := inert c List.mem_cons_self
      have tail := inductionHypothesis fun d member => inert d (List.mem_cons_of_mem c member)
      rw [List.cons_append, marks_cons, mark_of_isInert head, next_of_isInert head, tail]
      rfl

/-- What passes a test that only inert characters pass is skipped. -/
theorem marks_takeWhile {test : Char → Bool} (inert : ∀ c, test c = true → isInert c = true)
    (text : Text) :
    Mode.plain.marks text =
      unmarked (text.takeWhile test) ++ Mode.plain.marks (text.dropWhile test) := by
  have skipped : ∀ c ∈ text.takeWhile test, isInert c = true := fun c member =>
    inert c (List.all_eq_true.mp List.all_takeWhile c member)
  rw [← marks_inert skipped, List.takeWhile_append_dropWhile]

/-- A line feed ends whatever does not go on over the end of a line. -/
theorem marks_lineFeed {mode : Mode} (ends : mode.next '\n' = .plain) (rest : Text) :
    mode.marks ('\n' :: rest) = Mode.plain.marks ('\n' :: rest) := by
  have unseen : ∀ other : Mode, other.mark '\n' = none := mark_of_isInert rfl
  rw [marks_cons, marks_cons, unseen, unseen, ends]
  rfl

theorem mark_of_not_sees {mode : Mode} (hidden : mode.sees = false) (c : Char) :
    mode.mark c = none := by
  rw [mark, hidden]
  rfl

theorem marks_lineComment (text : Text) :
    Mode.lineComment.marks text =
      unmarked (text.takeWhile (· != '\n')) ++
        Mode.plain.marks (text.dropWhile (· != '\n')) := by
  induction text with
  | nil => rfl
  | cons c rest inductionHypothesis =>
      by_cases isEnd : c = '\n'
      · subst isEnd
        exact marks_lineFeed rfl rest
      · have stays : Mode.lineComment.next c = .lineComment := if_neg isEnd
        rw [marks_cons, stays, mark_of_not_sees rfl, inductionHypothesis]
        simp [isEnd]

/-- Behind a star a comment goes on as before, unless a slash comes next. -/
theorem marks_star {text : Text} (goesOn : text.head? ≠ some '/') :
    Mode.star.marks text = Mode.blockComment.marks text := by
  cases text with
  | nil => rfl
  | cons c rest =>
      have noSlash : c ≠ '/' := fun same => goesOn (congrArg some same)
      have sameNext : Mode.star.next c = Mode.blockComment.next c := if_neg noSlash
      rw [marks_cons, marks_cons, sameNext, mark_of_not_sees rfl, mark_of_not_sees rfl]

theorem marks_commentRun (text : Text) :
    Mode.blockComment.marks text =
      unmarked (Piece.commentRun text).taken ++
        Mode.plain.marks (Piece.commentRun text).rest := by
  fun_induction Piece.commentRun text with
  | case1 => rfl
  | case2 c rest closes =>
      obtain ⟨rfl, slash⟩ := closes
      cases rest with
      | nil => cases slash
      | cons d rest =>
          obtain rfl : d = '/' := Option.some.inj slash
          rfl
  | case3 c rest open' inductionHypothesis =>
      have restMarks : (Mode.blockComment.next c).marks rest = Mode.blockComment.marks rest := by
        by_cases isStar : c = '*'
        · have becomesStar : Mode.blockComment.next c = .star := if_pos isStar
          rw [becomesStar]
          exact marks_star fun slash => open' ⟨isStar, slash⟩
        · have stays : Mode.blockComment.next c = .blockComment := if_neg isStar
          rw [stays]
      rw [marks_cons, mark_of_not_sees rfl, restMarks, inductionHypothesis]
      rfl

theorem marks_quotedRun (quote : Char) (text : Text) :
    (Mode.quoted quote).marks text =
      unmarked (Piece.quotedRun quote text).taken ++
        Mode.plain.marks (Piece.quotedRun quote text).rest := by
  fun_induction Piece.quotedRun quote text with
  | case1 => rfl
  | case2 rest =>
      have closes : (Mode.quoted quote).next quote = .plain := if_pos (Or.inl rfl)
      rw [marks_cons, mark_of_not_sees rfl, closes]
      rfl
  | case3 rest other =>
      have ends : (Mode.quoted quote).next '\n' = .plain := if_pos (Or.inr rfl)
      exact marks_lineFeed ends rest
  | case4 other _ => rw [marks_cons, mark_of_not_sees rfl]; rfl
  | case5 rest other _ =>
      have escapes : (Mode.quoted quote).next '\\' = .escaped quote := by
        simp [next, other]
      have ends : (Mode.escaped quote).next '\n' = .plain := rfl
      rw [marks_cons, mark_of_not_sees rfl, escapes, marks_lineFeed ends]
      rfl
  | case6 d rest unbroken other _ inductionHypothesis =>
      have escapes : (Mode.quoted quote).next '\\' = .escaped quote := by
        simp [next, other]
      have returns : (Mode.escaped quote).next d = .quoted quote := if_neg unbroken
      rw [marks_cons, mark_of_not_sees rfl, escapes, marks_cons, mark_of_not_sees rfl,
        returns, inductionHypothesis]
      rfl
  | case7 c rest other unbroken plain inductionHypothesis =>
      have stays : (Mode.quoted quote).next c = .quoted quote := by
        simp [next, other, unbroken, plain]
      rw [marks_cons, mark_of_not_sees rfl, stays, inductionHypothesis]
      rfl

/-- A test that fails the characters with a meaning passes only inert ones. -/
theorem isInert_of_passes {test : Char → Bool}
    (fails : ['\x7b', '\x7d', '/', '"', '\''].all (fun d => !test d) = true) {c : Char}
    (passes : test c = true) : isInert c = true := by
  have different : ∀ d ∈ ['\x7b', '\x7d', '/', '"', '\''], c ≠ d := by
    intro d member same
    have failed := List.all_eq_true.mp fails d member
    rw [← same, passes] at failed
    cases failed
  simp only [List.mem_cons, List.not_mem_nil, or_false, forall_eq_or_imp, forall_eq]
    at different
  simp [isInert, different]

theorem isInert_of_isWordRest {c : Char} (passes : Piece.isWordRest c = true) :
    isInert c = true := isInert_of_passes rfl passes

theorem isInert_of_isHexRest {c : Char} (passes : Piece.isHexRest c = true) :
    isInert c = true := isInert_of_passes rfl passes

theorem isInert_of_isNumberRest {c : Char} (passes : Piece.isNumberRest c = true) :
    isInert c = true := by
  apply isInert_of_isWordRest
  simp only [Piece.isNumberRest, Bool.or_eq_true] at passes
  rcases passes with alphanumeric | underscore
  · simp [Piece.isWordRest, alphanumeric]
  · simp [Piece.isWordRest, underscore]

theorem isInert_of_isSpace {c : Char} (passes : Piece.isSpace c = true) :
    isInert c = true := isInert_of_passes rfl passes

/-- A quotation mark opens a literal and is itself no brace. -/
theorem opens_of_isQuote {c : Char} (isQuote : Piece.isQuote c = true) :
    Mode.plain.next c = .quoted c ∧ Mode.plain.mark c = none := by
  simp only [Piece.isQuote, Bool.or_eq_true, beq_iff_eq] at isQuote
  rcases isQuote with rfl | rfl
  · exact ⟨rfl, rfl⟩
  · exact ⟨rfl, rfl⟩

end Mode

namespace Piece

open Mode

/-- The marks of a piece: every character of a brace is that brace. -/
def marks (kind : Option TokenKind) (text : Text) : List (Option TokenKind) :=
  text.map fun _ => brace? kind

/-- Reading on behind a piece is reading as if nothing stood before. -/
def Skips (text : Text) (cut : Piece × Text) : Prop :=
  Mode.plain.marks text = marks cut.1.kind cut.1.text ++ Mode.plain.marks cut.2

theorem skips_colonPiece (rest : Text) : Skips (':' :: rest) (colonPiece rest) := by
  unfold colonPiece
  split
  · next assigns =>
      cases rest with
      | nil => cases assigns
      | cons d rest =>
          obtain rfl : d = '=' := Option.some.inj assigns
          rfl
  · rfl

theorem skips_dashPiece (rest : Text) : Skips ('-' :: rest) (dashPiece rest) := by
  unfold dashPiece
  split
  · next points =>
      cases rest with
      | nil => cases points
      | cons d rest =>
          obtain rfl : d = '>' := Option.some.inj points
          rfl
  · rfl

theorem brace?_lineCommentPiece (rest : Text) :
    brace? (lineCommentPiece rest).1.kind = none := by
  by_cases isPragma :
      (pragmaPayload? ('/' :: '/' :: rest.takeWhile (· != '\n'))).isSome = true
  · simp [lineCommentPiece, isPragma, brace?]
  · simp [lineCommentPiece, isPragma, brace?]

theorem brace?_ofRun {kind : TokenKind} (noBrace : brace? (some kind) = none) (run : Run) :
    brace? (ofRun kind run).1.kind = none := by
  unfold ofRun
  split
  · exact noBrace
  · rfl

theorem skips_slashPiece (rest : Text) : Skips ('/' :: rest) (slashPiece rest) := by
  cases rest with
  | nil => rfl
  | cons d rest =>
      by_cases doubled : d = '/'
      · subst doubled
        change Skips _ (lineCommentPiece rest)
        rw [Skips, marks, brace?_lineCommentPiece]
        exact congrArg (none :: none :: ·) (marks_lineComment rest)
      · by_cases starred : d = '*'
        · subst starred
          change Skips _ (ofRun .blockComment ((commentRun rest).prepend "/*"))
          rw [Skips, marks, brace?_ofRun rfl]
          exact congrArg (none :: none :: ·) (marks_commentRun rest)
        · have alone : slashPiece (d :: rest) = (⟨none, "/"⟩, d :: rest) := by
            simp [slashPiece, doubled, starred]
          have sameNext : Mode.slash.next d = Mode.plain.next d := by
            simp [next, doubled, starred]
          have sameMarks : Mode.slash.marks (d :: rest) = Mode.plain.marks (d :: rest) := by
            rw [marks_cons, marks_cons, sameNext]
            rfl
          rw [alone, Skips]
          exact congrArg (none :: ·) sameMarks

theorem skips_spanPiece {kind : TokenKind} {test : Char → Bool} {c : Char}
    (noBrace : brace? (some kind) = none) (head : isInert c = true)
    (inert : ∀ d, test d = true → isInert d = true) (rest : Text) :
    Skips (c :: rest) (spanPiece kind test c rest) := by
  have skipped := marks_takeWhile inert rest
  rw [Skips, spanPiece, marks, noBrace, marks_cons, mark_of_isInert head,
    next_of_isInert head, skipped]
  rfl

theorem skips_quote {c : Char} (isQuote : Piece.isQuote c = true) (rest : Text) :
    Skips (c :: rest) (ofRun .stringLiteral ((quotedRun c rest).prepend [c])) := by
  obtain ⟨opens, unseen⟩ := opens_of_isQuote isQuote
  rw [Skips, marks, brace?_ofRun rfl, marks_cons, opens, unseen, marks_quotedRun]
  rfl

/-- The digits of a literal leave the literal open. -/
theorem marks_quoted_digits {quote : Char} (isQuote : Piece.isQuote quote = true)
    {digits : Text} (hexadecimal : ∀ c ∈ digits, isHexRest c = true) (rest : Text) :
    (Mode.quoted quote).marks (digits ++ rest) =
      unmarked digits ++ (Mode.quoted quote).marks rest := by
  induction digits with
  | nil => rfl
  | cons c digits inductionHypothesis =>
      have head := hexadecimal c List.mem_cons_self
      have tail := inductionHypothesis fun d member =>
        hexadecimal d (List.mem_cons_of_mem c member)
      have noQuote : c ≠ quote := by
        rintro rfl
        have inert := isInert_of_isHexRest head
        simp only [Piece.isQuote, Bool.or_eq_true, beq_iff_eq] at isQuote
        rcases isQuote with rfl | rfl <;> exact absurd inert (by decide)
      have noBreak : c ≠ '\n' := by
        rintro rfl
        exact absurd head (by decide)
      have noEscape : c ≠ '\\' := by
        rintro rfl
        exact absurd head (by decide)
      have stays : (Mode.quoted quote).next c = .quoted quote := by
        simp [next, noQuote, noBreak, noEscape]
      rw [List.cons_append, marks_cons, stays, mark_of_not_sees rfl, tail]
      rfl

theorem marks_hexDigits {text digits after : Text}
    (found : hexDigits? text = some (digits, after)) :
    Mode.plain.marks text = unmarked digits ++ Mode.plain.marks after := by
  cases text with
  | nil => cases found
  | cons quote rest =>
      simp only [hexDigits?] at found
      split at found
      · next closed =>
          simp only [Bool.and_eq_true, beq_iff_eq] at closed
          simp only [Option.some.injEq, Prod.mk.injEq] at found
          obtain ⟨rfl, rfl⟩ := found
          obtain ⟨isQuote, closes⟩ := closed
          have hexadecimal : ∀ c ∈ rest.takeWhile isHexRest, isHexRest c = true :=
            List.all_eq_true.mp List.all_takeWhile
          obtain ⟨after, afterEq⟩ := List.head?_eq_some_iff.mp closes
          have restEq : rest = rest.takeWhile isHexRest ++ quote :: after := by
            rw [← afterEq, List.takeWhile_append_dropWhile]
          obtain ⟨opens, unseen⟩ := opens_of_isQuote isQuote
          have closing : (Mode.quoted quote).next quote = .plain := if_pos (Or.inl rfl)
          have inside := marks_quoted_digits isQuote hexadecimal (quote :: after)
          rw [← restEq, marks_cons, closing, mark_of_not_sees rfl] at inside
          rw [marks_cons, opens, unseen, inside, afterEq]
          simp
      · cases found

/-- A word is a keyword or an identifier. -/
theorem wordKind_cases (word : Text) :
    wordKind word = .objectKeyword ∨ wordKind word = .codeKeyword ∨
      wordKind word = .dataKeyword ∨ wordKind word = .identifier := by
  unfold wordKind
  split
  · exact .inl rfl
  · split
    · exact .inr (.inl rfl)
    · split
      · exact .inr (.inr (.inl rfl))
      · exact .inr (.inr (.inr rfl))

theorem skips_wordPiece {c : Char} (head : isInert c = true) (rest : Text) :
    Skips (c :: rest) (wordPiece c rest) := by
  have skipped := marks_takeWhile (fun _ => isInert_of_isWordRest) rest
  have word : Mode.plain.marks (c :: rest) =
      unmarked (c :: rest.takeWhile isWordRest) ++
        Mode.plain.marks (rest.dropWhile isWordRest) := by
    rw [marks_cons, mark_of_isInert head, next_of_isInert head, skipped]
    rfl
  unfold wordPiece
  simp only
  split
  · split
    · next digits after found =>
        have hidden := marks_hexDigits found
        rw [Skips, marks, word, hidden, ← List.append_assoc, ← unmarked_append]
        rfl
    · exact word
  · have unseen : brace? (some (wordKind (c :: rest.takeWhile isWordRest))) = none := by
      rcases wordKind_cases (c :: rest.takeWhile isWordRest) with kind | kind | kind | kind
        <;> rw [kind] <;> rfl
    rw [Skips, marks, unseen]
    exact word

theorem isInert_of_isWordStart {c : Char} (starts : isWordStart c = true) :
    isInert c = true := by
  apply isInert_of_isWordRest
  simp only [isWordStart, Bool.or_eq_true] at starts
  rcases starts with (letter | underscore) | dollar
  · simp [isWordRest, Char.isAlphanum, letter]
  · simp [isWordRest, underscore]
  · simp [isWordRest, dollar]

theorem isInert_of_isDigit {c : Char} (digit : c.isDigit = true) : isInert c = true := by
  apply isInert_of_isWordRest
  simp [isWordRest, Char.isAlphanum, digit]

/-- Behind a piece a plain scan goes on as if nothing stood before. -/
theorem skips_firstPiece (c : Char) (rest : Text) :
    Skips (c :: rest) (firstPiece c rest) := by
  unfold firstPiece
  fun_cases Initial.ofChar c with
  | case1 opens =>
      subst opens
      rfl
  | case2 _ closes =>
      subst closes
      rfl
  | case3 _ _ isMark => rcases isMark with rfl | rfl | rfl <;> rfl
  | case4 _ _ _ isColon =>
      subst isColon
      exact skips_colonPiece rest
  | case5 _ _ _ _ isDash =>
      subst isDash
      exact skips_dashPiece rest
  | case6 _ _ _ _ _ isSlash =>
      subst isSlash
      exact skips_slashPiece rest
  | case7 _ _ _ _ _ _ isQuote => exact skips_quote isQuote rest
  | case8 _ _ _ _ _ _ _ space =>
      exact skips_spanPiece rfl (isInert_of_isSpace space) (fun _ => isInert_of_isSpace) rest
  | case9 _ _ _ _ _ _ _ _ digit =>
      exact skips_spanPiece rfl (isInert_of_isDigit digit) (fun _ => isInert_of_isNumberRest) rest
  | case10 _ _ _ _ _ _ _ _ _ starts =>
      exact skips_wordPiece (isInert_of_isWordStart starts) rest
  | case11 noOpen noClose _ _ _ noSlash noQuote =>
      have inert : isInert c = true := by
        simp only [isQuote, Bool.or_eq_true, beq_iff_eq, not_or] at noQuote
        simp [isInert, noOpen, noClose, noSlash, noQuote]
      change Mode.plain.marks (c :: rest) = none :: Mode.plain.marks rest
      rw [marks_cons, mark_of_isInert inert, next_of_isInert inert]

/-- A plain scan of a text sees its pieces one after the other. -/
theorem marks_all (text : Text) :
    Mode.plain.marks text = (all text).flatMap fun piece => marks piece.kind piece.text := by
  fun_induction all text with
  | case1 => rfl
  | case2 c rest inductionHypothesis =>
      have skips := skips_firstPiece c rest
      rw [Skips] at skips
      rw [skips, inductionHypothesis, List.flatMap_cons]

/-- A brace is a piece of one character. -/
theorem text_of_brace {c : Char} {rest : Text} {kind : TokenKind}
    (isBrace : brace? (firstPiece c rest).1.kind = some kind) :
    (firstPiece c rest).1.text = [c] := by
  have skips := skips_firstPiece c rest
  obtain ⟨taken, textEq⟩ := List.head?_eq_some_iff.mp (firstPiece_head? c rest)
  have sameHead : Mode.plain.mark c = some kind := by
    rw [Skips, marks, textEq, isBrace] at skips
    exact (List.cons.inj skips).1
  rcases eq_of_brace? (mark_eq_some sameHead).2 with rfl | rfl <;> rfl

end Piece

namespace Token

open Piece

/-- The brace tokens among marked characters, from a byte position on. -/
def locate (position : Nat) : Text → List (Option TokenKind) → List Token
  | c :: rest, some kind :: marks =>
      ⟨kind, [c], position⟩ :: locate (position + c.utf8Size) rest marks
  | c :: rest, none :: marks => locate (position + c.utf8Size) rest marks
  | _, _ => []

theorem visibleBraces_eq_locate (position : Nat) (mode : Mode) (text : Text) :
    Text.visibleBraces position mode text = locate position text (mode.marks text) := by
  induction text generalizing position mode with
  | nil => rfl
  | cons c rest inductionHypothesis =>
      rw [Text.visibleBraces, Mode.marks_cons]
      cases mode.mark c with
      | none => exact inductionHypothesis _ _
      | some kind => exact congrArg (_ :: ·) (inductionHypothesis _ _)

theorem locate_append {first second : Text} {marks others : List (Option TokenKind)}
    (sameLength : marks.length = first.length) (position : Nat) :
    locate position (first ++ second) (marks ++ others) =
      locate position first marks ++
        locate (position + first.byteSize) second others := by
  induction first generalizing position marks with
  | nil =>
      obtain rfl := List.length_eq_zero_iff.mp sameLength
      rfl
  | cons c rest inductionHypothesis =>
      cases marks with
      | nil => cases sameLength
      | cons mark marks =>
          have tail := inductionHypothesis (Nat.succ.inj sameLength) (position + c.utf8Size)
          rw [Nat.add_assoc, ← Text.byteSize_cons] at tail
          cases mark with
          | none => exact tail
          | some kind => exact congrArg (_ :: ·) tail

theorem locate_unmarked (position : Nat) (text : Text) :
    locate position text (Mode.unmarked text) = [] := by
  induction text generalizing position with
  | nil => rfl
  | cons c rest inductionHypothesis => exact inductionHypothesis _

/-- Pieces, merged or not, whose braces have one character each. -/
def BracesAreShort (parts : List (TokenKind × Text)) : Prop :=
  ∀ part ∈ parts, ∀ kind, brace? (some part.1) = some kind → ∃ c, part.2 = [c]

theorem merge_cons_none (text : Text) (rest : List Piece) :
    ∃ more others, merge (⟨none, text⟩ :: rest) = (.garbage, text ++ more) :: others ∧
      ((merge rest = (.garbage, more) :: others) ∨ (more = [] ∧ merge rest = others)) := by
  rw [merge]
  split
  · next more others merged => exact ⟨more, others, rfl, Or.inl merged⟩
  · exact ⟨[], _, by rw [List.append_nil], Or.inr ⟨rfl, rfl⟩⟩

def marks (parts : List (TokenKind × Text)) : List (Option TokenKind) :=
  parts.flatMap fun part => Piece.marks (some part.1) part.2

@[simp]
theorem marks_cons (part : TokenKind × Text) (rest : List (TokenKind × Text)) :
    marks (part :: rest) = Piece.marks (some part.1) part.2 ++ marks rest := rfl

@[simp]
theorem marks_append (first second : List (TokenKind × Text)) :
    marks (first ++ second) = marks first ++ marks second :=
  List.flatMap_append

theorem length_marks (parts : List (TokenKind × Text)) :
    (marks parts).length = (parts.map Prod.snd).flatten.length := by
  induction parts with
  | nil => rfl
  | cons part rest inductionHypothesis =>
      rw [marks_cons, List.map_cons, List.flatten_cons, List.length_append, List.length_append,
        inductionHypothesis, Piece.marks, List.length_map]

theorem marks_merge (pieces : List Piece) :
    marks (merge pieces) = pieces.flatMap fun piece => Piece.marks piece.kind piece.text := by
  induction pieces with
  | nil => rfl
  | cons piece rest inductionHypothesis =>
      obtain ⟨kind, text⟩ := piece
      cases kind with
      | some kind =>
          rw [merge, marks_cons, List.flatMap_cons, inductionHypothesis]
      | none =>
          obtain ⟨more, others, merged, cases⟩ := merge_cons_none text rest
          rw [merged, marks_cons, List.flatMap_cons, ← inductionHypothesis]
          rcases cases with grown | ⟨rfl, same⟩
          · have joined : Piece.marks (some .garbage) (text ++ more) =
                Piece.marks none text ++ Piece.marks (some .garbage) more := List.map_append
            rw [grown, marks_cons, joined, List.append_assoc]
          · rw [same]
            simp [Piece.marks, Piece.brace?]

theorem flatten_merge_all (source : Text) :
    ((merge (Piece.all source)).map Prod.snd).flatten = source := by
  rw [flatten_merge, Piece.flatten_all]

/-- A plain scan of a source sees its tokens one after the other. -/
theorem marks_merge_all (source : Text) :
    Mode.plain.marks source = marks (merge (Piece.all source)) := by
  rw [marks_merge, Piece.marks_all]

theorem bracesAreShort_merge_all (text : Text) : BracesAreShort (merge (Piece.all text)) := by
  fun_induction Piece.all text with
  | case1 => intro part member; cases member
  | case2 c rest inductionHypothesis =>
      intro part member kind isBrace
      cases pieceEq : (firstPiece c rest).1 with
      | mk pieceKind pieceText =>
          rw [pieceEq] at member
          cases pieceKind with
          | some own =>
              rw [merge] at member
              rcases List.mem_cons.mp member with rfl | later
              · have short : (firstPiece c rest).1.text = [c] :=
                  text_of_brace (by rw [pieceEq]; exact isBrace)
                rw [pieceEq] at short
                exact ⟨c, short⟩
              · exact inductionHypothesis part later kind isBrace
          | none =>
              obtain ⟨more, others, merged, cases⟩ :=
                merge_cons_none pieceText (Piece.all (firstPiece c rest).2)
              rw [merged] at member
              rcases List.mem_cons.mp member with rfl | later
              · cases isBrace
              · apply inductionHypothesis part _ kind isBrace
                rcases cases with grown | ⟨_, same⟩
                · rw [grown]
                  exact List.mem_cons_of_mem _ later
                · rwa [same]

theorem filter_isBrace_place {parts : List (TokenKind × Text)} (short : BracesAreShort parts)
    (position : Nat) :
    (place position parts).filter isBrace =
      locate position (parts.map Prod.snd).flatten (marks parts) := by
  induction parts generalizing position with
  | nil => rfl
  | cons part rest inductionHypothesis =>
      obtain ⟨kind, text⟩ := part
      have tail := inductionHypothesis
        (fun other member => short other (List.mem_cons_of_mem _ member))
        (position + text.byteSize)
      have sameLength : (Piece.marks (some kind) text).length = text.length := List.length_map _
      rw [place, List.map_cons, List.flatten_cons, marks_cons, locate_append sameLength, ← tail]
      cases isBrace : Piece.brace? (some kind) with
      | none =>
          have hidden : locate position text (Piece.marks (some kind) text) = [] := by
            rw [Piece.marks, isBrace]
            exact locate_unmarked position text
          rw [hidden, List.nil_append, List.filter_cons_of_neg]
          simp [Token.isBrace, isBrace]
      | some own =>
          obtain ⟨c, rfl⟩ := short _ List.mem_cons_self own isBrace
          obtain rfl := Piece.eq_of_brace?_eq_some isBrace
          rw [List.filter_cons_of_pos (by simp [Token.isBrace, isBrace]), Piece.marks, isBrace]
          rfl

/-- The brace tokens of a source are the braces that a plain scan of it sees, each where it
stands. -/
theorem scan_braces (source : Text) :
    (scan source).filter isBrace = Text.visibleBraces 0 .plain source := by
  rw [scan, filter_isBrace_place (bracesAreShort_merge_all source), flatten_merge_all,
    ← marks_merge_all, visibleBraces_eq_locate]

end Token

end YulTree

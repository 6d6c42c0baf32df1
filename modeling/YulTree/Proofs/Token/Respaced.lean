import YulTree.Proofs.Token.Ahead

/-!
# Changes of blank space

Changes of a text that only put blank space in front of its line feeds, or blank space or a closing
brace behind its end.  Words, marks and closed literals are cut off as before; what else may begin
a text is told apart by `beginning`.
-/

namespace YulTree

/-- The characters that end words, numbers and marks: the blank ones and the closing brace. -/
def Piece.isBreak (c : Char) : Bool := Text.blank.contains c || c == '\x7d'

theorem Piece.isBreak_of_isSpace {c : Char} (space : isSpace c = true) : isBreak c = true := by
  simp only [isSpace, Bool.or_eq_true, beq_iff_eq] at space
  rcases space with ((rfl | rfl) | rfl) | rfl <;> rfl

/-- A change of texts that is seen at line feeds and at the end only, where it ends a word. -/
structure Text.Respaces (change : Text → Text) : Prop where
  keeps : ∀ c rest, c ≠ '\n' → change (c :: rest) = c :: change rest
  breaks : ∀ text, (∀ c ∈ text.head?, c = '\n') → ∀ d ∈ (change text).head?, Piece.isBreak d = true

/-- Nothing, or a character at the end that ends a word, and whatever follows it. -/
theorem Text.respaces_append {more : Text} (ends : ∀ d ∈ more.head?, Piece.isBreak d = true) :
    Respaces (· ++ more) := by
  constructor
  · intro c rest _
    rfl
  · intro text breaks
    cases text with
    | nil => exact ends
    | cons c rest =>
        intro e member
        obtain rfl := Option.mem_some.mp member
        rw [breaks _ rfl]
        rfl

namespace Text.Respaces

open Piece

variable {change : Text → Text}

theorem head?_eq_some_iff (respaces : Respaces change) {c : Char} (notBreak : isBreak c = false)
    (text : Text) : (change text).head? = some c ↔ text.head? = some c := by
  by_cases breaks : ∀ d ∈ text.head?, d = '\n'
  · constructor
    · intro head
      rw [respaces.breaks text breaks c head] at notBreak
      cases notBreak
    · intro head
      rw [breaks c head] at notBreak
      cases notBreak
  · cases text with
    | nil => simp at breaks
    | cons d rest =>
        have unbroken : d ≠ '\n' := by simpa using breaks
        rw [respaces.keeps d rest unbroken]
        rfl

theorem tail_change (respaces : Respaces change) {c : Char} (notBreak : isBreak c = false)
    {text : Text} (head : text.head? = some c) : (change text).tail = change text.tail := by
  obtain ⟨rest, rfl⟩ := List.head?_eq_some_iff.mp head
  rw [respaces.keeps c rest]
  · rfl
  · rintro rfl
    cases notBreak

/-- What passes a test that blank space and braces fail is kept. -/
theorem span_change (respaces : Respaces change) (test : Char → Bool)
    (fails : ∀ d, isBreak d = true → test d = false) (text : Text) :
    (change text).takeWhile test = text.takeWhile test ∧
      (change text).dropWhile test = change (text.dropWhile test) := by
  have atBreak : ∀ broken : Text, (∀ c ∈ broken.head?, c = '\n') →
      (change broken).takeWhile test = [] ∧ (change broken).dropWhile test = change broken := by
    intro broken breaks
    have ends : ∀ d ∈ (change broken).head?, test d = false := by
      intro d member
      exact fails d (respaces.breaks broken breaks d member)
    exact Lexeme.span_of_ends (List.forall_mem_nil _) ends
  induction text with
  | nil => exact atBreak [] (by simp)
  | cons c rest inductionHypothesis =>
      by_cases isBreak : c = '\n'
      · subst isBreak
        have stops : ¬ test '\n' = true := by simp [fails '\n' rfl]
        rw [List.takeWhile_cons_of_neg stops, List.dropWhile_cons_of_neg stops]
        exact atBreak _ (by simp)
      · rw [respaces.keeps c rest isBreak]
        by_cases passes : test c = true
        · rw [List.takeWhile_cons_of_pos passes, List.dropWhile_cons_of_pos passes,
            List.takeWhile_cons_of_pos passes, List.dropWhile_cons_of_pos passes,
            inductionHypothesis.1, inductionHypothesis.2]
          exact ⟨rfl, rfl⟩
        · rw [List.takeWhile_cons_of_neg passes, List.dropWhile_cons_of_neg passes,
            List.takeWhile_cons_of_neg passes, List.dropWhile_cons_of_neg passes,
            respaces.keeps c rest isBreak]
          exact ⟨rfl, rfl⟩

def breakChars : List Char :=
  '\x7d' :: blank.ranges.flatMap fun range =>
    (List.range' range.1 (range.2 + 1 - range.1)).map Char.ofNat

theorem mem_breakChars {d : Char} (breaks : isBreak d = true) : d ∈ breakChars := by
  rw [isBreak, Bool.or_eq_true, beq_iff_eq] at breaks
  rcases breaks with isBlank | rfl
  · obtain ⟨range, isRange, bounds⟩ := List.any_eq_true.mp isBlank
    rw [Bool.and_eq_true, decide_eq_true_eq, decide_eq_true_eq] at bounds
    refine List.mem_cons_of_mem _ (List.mem_flatMap.mpr ⟨range, isRange, List.mem_map.mpr ?_⟩)
    refine ⟨d.toNat, List.mem_range'_1.mpr ?_, Char.ofNat_toNat d⟩
    omega
  · exact List.mem_cons_self

theorem fails_of_all {test : Char → Bool}
    (fails : breakChars.all (fun d => !test d) = true) (d : Char)
    (breaks : isBreak d = true) : test d = false := by
  have failed := List.all_eq_true.mp fails d (mem_breakChars breaks)
  simpa using failed

theorem isQuote_of_isBreak (d : Char) (breaks : isBreak d = true) : isQuote d = false :=
  fails_of_all (by decide) d breaks

theorem isBreak_of_isQuote {c : Char} (quotes : isQuote c = true) : isBreak c = false := by
  cases breaks : isBreak c with
  | false => rfl
  | true =>
      rw [isQuote_of_isBreak c breaks] at quotes
      cases quotes

theorem ne_lineFeed {c : Char} (notBreak : isBreak c = false) : c ≠ '\n' := by
  rintro rfl
  cases notBreak

theorem hexDigits?_eq_none {text : Text} (unquoted : ∀ c ∈ text.head?, isQuote c = false) :
    hexDigits? text = none := by
  cases text with
  | nil => rfl
  | cons c rest => simp [hexDigits?, unquoted c rfl]

theorem hexDigits?_change (respaces : Respaces change) (text : Text) :
    hexDigits? (change text) = (hexDigits? text).map fun parts => (parts.1, change parts.2) := by
  by_cases quoted : ∃ c ∈ text.head?, isQuote c = true
  · obtain ⟨quote, head, quotes⟩ := quoted
    obtain ⟨rest, rfl⟩ := List.head?_eq_some_iff.mp head
    have notBreak := isBreak_of_isQuote quotes
    obtain ⟨taken, left⟩ := respaces.span_change isHexRest (fails_of_all (by decide)) rest
    have sameHead := respaces.head?_eq_some_iff notBreak (rest.dropWhile isHexRest)
    rw [respaces.keeps quote rest (ne_lineFeed notBreak)]
    simp only [hexDigits?, taken, left, quotes, Bool.true_and, beq_iff_eq, sameHead]
    by_cases closes : (rest.dropWhile isHexRest).head? = some quote
    · rw [if_pos closes, if_pos closes, respaces.tail_change notBreak closes]
      rfl
    · rw [if_neg closes, if_neg closes]
      rfl
  · have unquoted : ∀ c ∈ text.head?, isQuote c = false := by
      intro c member
      exact Bool.eq_false_iff.mpr fun quotes => quoted ⟨c, member, quotes⟩
    have changedUnquoted : ∀ c ∈ (change text).head?, isQuote c = false := by
      intro c member
      apply Bool.eq_false_iff.mpr
      intro quotes
      have sameHead := respaces.head?_eq_some_iff (isBreak_of_isQuote quotes) text
      exact quoted ⟨c, sameHead.mp member, quotes⟩
    rw [hexDigits?_eq_none unquoted, hexDigits?_eq_none changedUnquoted]
    rfl

theorem quotedRun_change (respaces : Respaces change) {quote : Char}
    (quotes : isQuote quote = true) {text : Text}
    (closed : (quotedRun quote text).isComplete = true) :
    quotedRun quote (change text) =
      ⟨true, (quotedRun quote text).taken, change (quotedRun quote text).rest⟩ := by
  fun_induction quotedRun quote text with
  | case1 | case3 | case4 | case5 => cases closed
  | case2 rest =>
      rw [respaces.keeps _ rest (ne_lineFeed (isBreak_of_isQuote quotes)), quotedRun.eq_def]
      simp only [if_true]
  | case6 d rest unbroken other _ inductionHypothesis =>
      rw [respaces.keeps _ _ (by decide), respaces.keeps d rest unbroken, quotedRun]
      simp only [if_neg other, if_neg unbroken, inductionHypothesis closed]
      rfl
  | case7 c rest other unbroken plain inductionHypothesis =>
      rw [respaces.keeps c rest unbroken, quotedRun.eq_def]
      simp only [if_neg other, if_neg unbroken, if_neg plain, inductionHypothesis closed]
      rfl

theorem colonPiece_change (respaces : Respaces change) (text : Text) :
    colonPiece (change text) = ((colonPiece text).1, change (colonPiece text).2) := by
  have sameHead := respaces.head?_eq_some_iff (c := '=') rfl text
  by_cases assigns : text.head? = some '='
  · rw [colonPiece, colonPiece, if_pos assigns, if_pos (sameHead.mpr assigns),
      respaces.tail_change rfl assigns]
  · rw [colonPiece, colonPiece, if_neg assigns, if_neg (mt sameHead.mp assigns)]

theorem dashPiece_change (respaces : Respaces change) (text : Text) :
    dashPiece (change text) = ((dashPiece text).1, change (dashPiece text).2) := by
  have sameHead := respaces.head?_eq_some_iff (c := '>') rfl text
  by_cases points : text.head? = some '>'
  · rw [dashPiece, dashPiece, if_pos points, if_pos (sameHead.mpr points),
      respaces.tail_change rfl points]
  · rw [dashPiece, dashPiece, if_neg points, if_neg (mt sameHead.mp points)]

theorem wordPiece_change (respaces : Respaces change) (c : Char) (text : Text) :
    wordPiece c (change text) = ((wordPiece c text).1, change (wordPiece c text).2) := by
  obtain ⟨taken, left⟩ := respaces.span_change isWordRest (fails_of_all (by decide)) text
  simp only [wordPiece, taken, left, respaces.hexDigits?_change]
  split
  · cases hexDigits? (text.dropWhile isWordRest) with
    | none => rfl
    | some parts => rfl
  · rfl

end Text.Respaces

namespace Piece

/-- A piece that changes of blank space behind it leave as it is. -/
def IsFirm (c : Char) (text : Text) : Prop :=
  ∀ change : Text → Text, Text.Respaces change →
    firstPiece c (change text) = ((firstPiece c text).1, change (firstPiece c text).2)

/-- What a text may begin with: a firm piece, or one that may take up blank space. -/
inductive Beginning (c : Char) (text : Text) : Prop where
  | firm : IsFirm c text → Beginning c text
  | space : isSpace c = true → Beginning c text
  | lineComment (rest : Text) : c = '/' → text = '/' :: rest → Beginning c text
  | blockComment (rest : Text) : c = '/' → text = '*' :: rest → Beginning c text
  | openQuote : isQuote c = true → (quotedRun c text).isComplete = false → Beginning c text

theorem firstPiece_quote {c : Char} (quotes : isQuote c = true) (text : Text) :
    firstPiece c text = ofRun .stringLiteral ((quotedRun c text).prepend [c]) := by
  simp only [isQuote, Bool.or_eq_true, beq_iff_eq] at quotes
  rcases quotes with rfl | rfl
  · rfl
  · rfl

theorem Initial.of_ofChar_eq {c : Char} :
    (Initial.ofChar c = .quote → isQuote c = true) ∧
      (Initial.ofChar c = .space → isSpace c = true) := by
  fun_cases Initial.ofChar c <;> simp [*]

theorem beginning (c : Char) (text : Text) : Beginning c text := by
  obtain ⟨-, -, -, -, isSlash⟩ := Initial.eq_of_ofChar (c := c)
  obtain ⟨quotes, space⟩ := Initial.of_ofChar_eq (c := c)
  cases initial : Initial.ofChar c with
  | openBrace | closeBrace | mark | other =>
      apply Beginning.firm
      intro change _
      simp only [firstPiece, initial]
  | colon =>
      apply Beginning.firm
      intro change respaces
      simp only [firstPiece, initial, respaces.colonPiece_change]
  | dash =>
      apply Beginning.firm
      intro change respaces
      simp only [firstPiece, initial, respaces.dashPiece_change]
  | slash =>
      have slashes := isSlash initial
      by_cases doubled : text.head? = some '/'
      · obtain ⟨rest, rfl⟩ := List.head?_eq_some_iff.mp doubled
        exact .lineComment rest slashes rfl
      · by_cases starred : text.head? = some '*'
        · obtain ⟨rest, rfl⟩ := List.head?_eq_some_iff.mp starred
          exact .blockComment rest slashes rfl
        · apply Beginning.firm
          intro change respaces
          have notDoubled := mt (respaces.head?_eq_some_iff (c := '/') rfl text).mp doubled
          have notStarred := mt (respaces.head?_eq_some_iff (c := '*') rfl text).mp starred
          simp only [firstPiece, initial, slashPiece, if_neg doubled, if_neg starred,
            if_neg notDoubled, if_neg notStarred]
  | quote =>
      cases closed : (quotedRun c text).isComplete with
      | false => exact .openQuote (quotes initial) closed
      | true =>
          apply Beginning.firm
          intro change respaces
          simp only [firstPiece, initial, respaces.quotedRun_change (quotes initial) closed,
            ofRun, Run.prepend, closed]
  | space => exact .space (space initial)
  | digit =>
      apply Beginning.firm
      intro change respaces
      obtain ⟨taken, left⟩ :=
        respaces.span_change isNumberRest (Text.Respaces.fails_of_all (by decide)) text
      simp only [firstPiece, initial, spanPiece, taken, left]
  | letter =>
      apply Beginning.firm
      intro change respaces
      simp only [firstPiece, initial, respaces.wordPiece_change]

end Piece

end YulTree

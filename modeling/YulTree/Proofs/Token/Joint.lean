import Mathlib.Data.List.Forall2
import Mathlib.Data.List.TakeWhile
import YulTree.Proofs.Token.Respaced
import YulTree.Proofs.Token.Tiling

/-!
# Texts behind one another

A text whose last token is complete is cut as before if blank space is put behind it, and
whatever follows that.  Only blank space and a comment at its end may grow (`all_append`).
-/

namespace YulTree

/-- Blank space only, or a comment that is no pragma and runs to the end. -/
inductive Text.IsIdle : Text → Prop where
  | blank {text : Text} : (∀ c ∈ text, Piece.isSpace c = true) → IsIdle text
  | comment {content : Text} : '\n' ∉ content →
      pragmaPayload? ('/' :: '/' :: content) = none → IsIdle ('/' :: '/' :: content)

namespace Piece

open Lexeme

theorem commentRun_of_isComplete {text : Text} (closed : (commentRun text).isComplete = true)
    (more : Text) :
    commentRun (text ++ more) = ⟨true, (commentRun text).taken, (commentRun text).rest ++ more⟩ := by
  fun_induction commentRun text with
  | case1 => cases closed
  | case2 c rest closes =>
      obtain ⟨rfl, slash⟩ := closes
      obtain ⟨others, rfl⟩ := List.head?_eq_some_iff.mp slash
      rfl
  | case3 c rest stays inductionHypothesis =>
      have restClosed : (commentRun rest).isComplete = true := closed
      have sameHead : (rest ++ more).head? = rest.head? := by
        cases rest with
        | nil => cases restClosed
        | cons d others => rfl
      rw [List.cons_append, commentRun, sameHead, if_neg stays, inductionHypothesis restClosed]
      rfl

theorem rest_commentRun {text : Text} (openEnded : (commentRun text).isComplete = false) :
    (commentRun text).rest = [] := by
  fun_induction commentRun text with
  | case1 => rfl
  | case2 => cases openEnded
  | case3 c rest _ inductionHypothesis => exact inductionHypothesis openEnded

/-- An open literal that ends in front of a line feed ends there, whatever follows. -/
theorem quotedRun_of_rest {quote : Char} {text : Text}
    (openEnded : (quotedRun quote text).isComplete = false)
    (broken : (quotedRun quote text).rest ≠ []) (more : Text) :
    quotedRun quote (text ++ more) =
      ⟨false, (quotedRun quote text).taken, (quotedRun quote text).rest ++ more⟩ := by
  fun_induction quotedRun quote text with
  | case1 | case4 => exact absurd rfl broken
  | case2 => cases openEnded
  | case3 rest other =>
      rw [List.cons_append, quotedRun.eq_def]
      simp only [if_neg other, if_true]
  | case5 rest other _ =>
      rw [List.cons_append, List.cons_append, quotedRun]
      simp only [if_neg other, if_true]
      rfl
  | case6 d rest unbroken other _ inductionHypothesis =>
      rw [List.cons_append, List.cons_append, quotedRun]
      simp only [if_neg other, if_neg unbroken, inductionHypothesis openEnded broken]
      rfl
  | case7 c rest other unbroken plain inductionHypothesis =>
      rw [List.cons_append, quotedRun.eq_def]
      simp only [if_neg other, if_neg unbroken, if_neg plain,
        inductionHypothesis openEnded broken]
      rfl

theorem fails_of_dropWhile {test : Char → Bool} {text others : Text} {d : Char}
    (left : text.dropWhile test = d :: others) : test d = false := by
  have stops := List.head?_dropWhile_not test text
  rw [left] at stops
  exact stops

theorem unbroken_takeWhile (text : Text) : '\n' ∉ text.takeWhile (· != '\n') := by
  intro member
  simpa using List.mem_takeWhile_imp member

/-- What ends inside a text ends there, whatever follows. -/
theorem span_append_of_rest {test : Char → Bool} {text : Text} (ends : text.dropWhile test ≠ [])
    (more : Text) :
    (text ++ more).takeWhile test = text.takeWhile test ∧
      (text ++ more).dropWhile test = text.dropWhile test ++ more := by
  have goesOn : ∀ c ∈ text.takeWhile test, test c = true :=
    List.all_eq_true.mp List.all_takeWhile
  obtain ⟨d, others, left⟩ := List.exists_cons_of_ne_nil ends
  have cut := span_of_ends goesOn (ends_cons (fails_of_dropWhile left) (others ++ more))
  rw [← List.cons_append, ← left, ← List.append_assoc, List.takeWhile_append_dropWhile] at cut
  exact cut

theorem firstPiece_append_blank {d : Char} (space : isSpace d = true) (c : Char) (text : Text) :
    (∀ more, firstPiece c (text ++ d :: more) =
        ((firstPiece c text).1, (firstPiece c text).2 ++ d :: more)) ∨
      (firstPiece c text).2 = [] ∧
        ((firstPiece c text).1.kind = none ∨ (firstPiece c text).1.kind = some .pragma ∨
          Text.IsIdle (c :: text)) := by
  cases beginning c text with
  | firm isFirm =>
      left
      intro more
      have ends : ∀ e ∈ (d :: more).head?, isBreak e = true := by
        intro e member
        obtain rfl := Option.mem_some.mp member
        exact isBreak_of_isSpace space
      exact isFirm _ (Text.respaces_append ends)
  | space blank =>
      rw [firstPiece_space blank]
      by_cases ends : text.dropWhile isSpace = []
      · have spaces : ∀ e ∈ c :: text, isSpace e = true :=
          List.forall_mem_cons.mpr ⟨blank, List.dropWhile_eq_nil_iff.mp ends⟩
        exact .inr ⟨ends, .inr (.inr (.blank spaces))⟩
      · left
        intro more
        obtain ⟨taken, left⟩ := span_append_of_rest ends (d :: more)
        rw [firstPiece_space blank, taken, left]
  | lineComment rest slash cut =>
      subst slash cut
      by_cases ends : rest.dropWhile (· != '\n') = []
      · right
        have taken : rest.takeWhile (· != '\n') = rest :=
          List.takeWhile_eq_self_iff.mpr (List.dropWhile_eq_nil_iff.mp ends)
        have unbroken := unbroken_takeWhile rest
        rw [taken] at unbroken
        have kind : (firstPiece '/' ('/' :: rest)).1.kind =
            some (if (pragmaPayload? ('/' :: '/' :: rest)).isSome then .pragma
              else .lineComment) := by
          change some (if (pragmaPayload? ('/' :: '/' :: rest.takeWhile (· != '\n'))).isSome
            then TokenKind.pragma else .lineComment) = _
          rw [taken]
        refine ⟨ends, ?_⟩
        by_cases isPragma : (pragmaPayload? ('/' :: '/' :: rest)).isSome = true
        · rw [kind, if_pos isPragma]
          exact .inr (.inl rfl)
        · exact .inr (.inr (.comment unbroken (by simpa using isPragma)))
      · left
        intro more
        obtain ⟨taken, left⟩ := span_append_of_rest ends (d :: more)
        change lineCommentPiece (rest ++ d :: more) =
          ((lineCommentPiece rest).1, (lineCommentPiece rest).2 ++ d :: more)
        rw [lineCommentPiece, taken, left]
        rfl
  | blockComment rest slash cut =>
      subst slash cut
      cases closed : (commentRun rest).isComplete with
      | false =>
          have kind : (firstPiece '/' ('*' :: rest)).1.kind = none := by
            change (if (commentRun rest).isComplete then some TokenKind.blockComment else none) = _
            rw [closed]
            rfl
          exact .inr ⟨rest_commentRun closed, .inl kind⟩
      | true =>
          left
          intro more
          change ofRun .blockComment ((commentRun (rest ++ d :: more)).prepend "/*") =
            ((ofRun .blockComment ((commentRun rest).prepend "/*")).1,
              (commentRun rest).rest ++ d :: more)
          rw [commentRun_of_isComplete closed, ofRun, ofRun, Run.prepend, Run.prepend, closed]
  | openQuote quotes openEnded =>
      rw [firstPiece_quote quotes]
      by_cases ends : (quotedRun c text).rest = []
      · refine .inr ⟨ends, .inl ?_⟩
        rw [ofRun, Run.prepend, openEnded]
        rfl
      · left
        intro more
        rw [firstPiece_quote quotes, quotedRun_of_rest openEnded ends, ofRun, ofRun,
          Run.prepend, Run.prepend, openEnded]

/-- Pieces of which the last is complete and no pragma. -/
def Settled (pieces : List Piece) : Prop :=
  ∀ piece ∈ pieces.getLast?, piece.kind ≠ none ∧ piece.kind ≠ some .pragma

theorem Settled.tail {piece : Piece} {rest : List Piece} (settled : Settled (piece :: rest)) :
    Settled rest := by
  intro last member
  apply settled last
  rw [Option.mem_def] at member ⊢
  rw [List.getLast?_cons, member]
  rfl

/-- The pieces of a text do not depend on what follows blank space behind it, but for the blank
space or the comment at its end. -/
theorem all_append {d : Char} (space : isSpace d = true) (text : Text)
    (settled : Settled (all text)) :
    ∃ front back, all text = front ++ all back ∧ Text.IsIdle back ∧
      ∀ more, all (text ++ d :: more) = front ++ all (back ++ d :: more) := by
  fun_induction all text with
  | case1 => exact ⟨[], [], by rw [all]; rfl, .blank (by simp), fun _ => rfl⟩
  | case2 c rest inductionHypothesis =>
      rcases firstPiece_append_blank space c rest with goesOn | ⟨ends, last⟩
      · obtain ⟨front, back, cut, idle, rows⟩ := inductionHypothesis settled.tail
        refine ⟨(firstPiece c rest).1 :: front, back, by rw [cut]; rfl, idle, ?_⟩
        intro more
        rw [List.cons_append, all, goesOn, rows]
        rfl
      · have complete := settled (firstPiece c rest).1 (by rw [ends, all]; rfl)
        rcases last with open' | isPragma | idle
        · exact absurd open' complete.1
        · exact absurd isPragma complete.2
        · exact ⟨[], c :: rest, by rw [all]; rfl, idle, fun _ => rfl⟩

/-- The texts that begin with a token, if with anything. -/
def Starts (text : Text) : Prop := ∀ piece ∈ (all text).head?, piece.kind ≠ none

theorem starts_cons {c : Char} {rest : Text} (isToken : (firstPiece c rest).1.kind ≠ none) :
    Starts (c :: rest) := by
  intro piece member
  rw [all, List.head?_cons] at member
  rw [← Option.mem_some.mp member]
  exact isToken

theorem starts_of_isSpace {text : Text} (space : ∀ c ∈ text.head?, isSpace c = true) :
    Starts text := by
  cases text with
  | nil =>
      intro piece member
      rw [all] at member
      cases member
  | cons c rest =>
      apply starts_cons
      rw [firstPiece_space (space c rfl)]
      simp

end Piece

open Piece

/-- Garbage does not grow over a text that begins with a token. -/
theorem Token.merge_append_all {text : Text} (starts : Starts text) (front : List Piece) :
    merge (front ++ all text) = merge front ++ merge (all text) := by
  cases text with
  | nil =>
      rw [all, List.append_nil, merge, List.append_nil]
  | cons c rest =>
      have notGarbage := kind_firstPiece_ne c rest
      unfold Starts at starts
      rw [all] at starts ⊢
      generalize firstPiece c rest = cut at starts notGarbage ⊢
      obtain ⟨⟨kind, piece⟩, after⟩ := cut
      cases kind with
      | none => exact absurd rfl (starts _ rfl)
      | some kind =>
          have proper : kind ≠ .garbage := fun same => notGarbage (congrArg some same)
          exact merge_append proper piece front (all after)

theorem Token.exists_merge_concat (pieces : List Piece) (last : Piece) :
    ∃ front text, merge (pieces ++ [last]) = front ++ [(last.kind.getD .garbage, text)] := by
  induction pieces with
  | nil =>
      obtain ⟨kind, text⟩ := last
      cases kind with
      | none => exact ⟨[], text, rfl⟩
      | some kind => exact ⟨[], text, rfl⟩
  | cons piece rest inductionHypothesis =>
      obtain ⟨front, text, merged⟩ := inductionHypothesis
      obtain ⟨kind, own⟩ := piece
      cases kind with
      | some kind =>
          refine ⟨(kind, own) :: front, text, ?_⟩
          rw [List.cons_append, merge, merged]
          rfl
      | none =>
          rw [List.cons_append, merge, merged]
          cases front with
          | nil =>
              cases isGarbage : last.kind.getD .garbage with
              | garbage => exact ⟨[], own ++ text, rfl⟩
              | _ => exact ⟨[(.garbage, own)], text, rfl⟩
          | cons part front =>
              obtain ⟨partKind, partText⟩ := part
              cases partKind with
              | garbage => exact ⟨(.garbage, own ++ partText) :: front, text, rfl⟩
              | _ => exact ⟨(.garbage, own) :: (_, partText) :: front, text, rfl⟩

theorem Text.dropPrefix?_append_singleton {beginning : Text} {d : Char} (absent : d ∉ beginning)
    (text : Text) :
    dropPrefix? beginning (text ++ [d]) = (dropPrefix? beginning text).map (· ++ [d]) := by
  have samePrefix : beginning <+: text ++ [d] ↔ beginning <+: text := by
    rw [List.prefix_concat_iff]
    constructor
    · rintro (whole | begins)
      · rw [whole] at absent
        simp at absent
      · exact begins
    · exact .inr
  simp only [dropPrefix?, List.isPrefixOf_iff_prefix, samePrefix]
  by_cases begins : beginning <+: text
  · rw [if_pos begins, if_pos begins, List.drop_append_of_le_length begins.length_le]
    rfl
  · rw [if_neg begins, if_neg begins]
    rfl

theorem pragmaPayload?_append_blank {d : Char} (space : isSpace d = true) (comment : Text) :
    pragmaPayload? (comment ++ [d]) = (pragmaPayload? comment).map (· ++ [d]) := by
  have absent : ∀ beginning : Text, beginning.all (fun c => !isSpace c) = true →
      d ∉ beginning := by
    intro beginning noSpace member
    simpa [space] using List.all_eq_true.mp noSpace d member
  have notInName : d ∉ ("@use-src" : Text) := absent "@use-src" rfl
  have isBlank : Text.blank.contains d = true := by
    simp only [isSpace, Bool.or_eq_true, beq_iff_eq] at space
    rcases space with ((rfl | rfl) | rfl) | rfl <;> rfl
  unfold pragmaPayload?
  rw [Text.dropPrefix?_append_singleton (absent "///" rfl)]
  cases Text.dropPrefix? "///" comment with
  | none => rfl
  | some content =>
      change Text.dropPrefix? "@use-src" (Text.trimStart (content ++ [d])) =
        (Text.dropPrefix? "@use-src" content.trimStart).map (· ++ [d])
      rw [← Text.dropPrefix?_append_singleton notInName, Text.trimStart, Text.trimStart,
        List.dropWhile_append]
      split
      · next allBlank =>
          have noContent := List.isEmpty_iff.mp allBlank
          have trimmed : [d].dropWhile Text.blank.contains = [] :=
            List.dropWhile_cons_of_pos isBlank
          rw [trimmed, noContent, Text.dropPrefix?_append_singleton notInName]
          rfl
      · rfl

namespace Text.IsIdle

variable {text : Text}

/-- What is idle begins with trivia, also if blank space follows. -/
theorem starts (idle : text.IsIdle) {more : Text} (space : ∀ c ∈ more.head?, isSpace c = true) :
    Starts (text ++ more) := by
  cases idle with
  | blank spaces =>
      cases text with
      | nil => exact starts_of_isSpace space
      | cons c rest =>
          apply starts_of_isSpace
          intro d member
          obtain rfl := Option.mem_some.mp member
          exact spaces c List.mem_cons_self
  | @comment content unbroken noPragma =>
      apply starts_cons
      change (lineCommentPiece (content ++ more)).1.kind ≠ none
      simp [lineCommentPiece]

theorem append_blank (idle : text.IsIdle) {d : Char} (space : isSpace d = true)
    (unbroken : d ≠ '\n') : IsIdle (text ++ [d]) := by
  cases idle with
  | blank spaces =>
      apply blank
      intro c member
      rcases List.mem_append.mp member with inText | last
      · exact spaces c inText
      · rw [List.mem_singleton.mp last]
        exact space
  | @comment content goesOn noPragma =>
      have longer : '\n' ∉ content ++ [d] := by simp [goesOn, Ne.symm unbroken]
      have grown := pragmaPayload?_append_blank space ('/' :: '/' :: content)
      rw [noPragma] at grown
      exact .comment longer grown

end Text.IsIdle

namespace Lexeme

theorem ahead_lineComment {content : Text} (unbroken : '\n' ∉ content)
    (noPragma : pragmaPayload? ('/' :: '/' :: content) = none) {rest : Text}
    (ends : ∀ d ∈ rest.head?, d = '\n') (lead : Text) (start : Nat) :
    ahead lead start ('/' :: '/' :: (content ++ rest)) =
      ahead (lead ++ '/' :: '/' :: content) (start + Text.byteSize ('/' :: '/' :: content))
        rest := by
  refine ahead_trivia ?_ (rfl : TokenKind.lineComment.isTrivia = true) lead start
  rw [firstPiece_lineComment unbroken ends, noPragma]
  rfl

theorem ahead_idle {text : Text} (idle : text.IsIdle) (lead : Text) (start : Nat) :
    ahead lead start text = [] := by
  cases idle with
  | blank spaces =>
      rw [← List.append_nil text, ahead_spaces spaces, ahead_nil]
  | @comment content unbroken noPragma =>
      rw [← List.append_nil content, ahead_lineComment unbroken noPragma (by simp), ahead_nil]

theorem ahead_idle_lineFeed {text : Text} (idle : text.IsIdle) (lead : Text) (start : Nat)
    (more : Text) :
    ahead lead start (text ++ '\n' :: more) =
      ahead (lead ++ text ++ ['\n']) (start + text.byteSize + Text.byteSize ['\n']) more := by
  cases idle with
  | blank spaces => rw [ahead_spaces spaces, ahead_space rfl]
  | @comment content unbroken noPragma =>
      have breaks : ∀ d ∈ ('\n' :: more).head?, d = '\n' := by simp
      rw [List.cons_append, List.cons_append, ahead_lineComment unbroken noPragma breaks,
        ahead_space rfl]

/-! ## Rows -/

/-- The same token further on, whatever stands in front of it. -/
structure Moved (distance : Nat) (lexeme moved : Lexeme) : Prop where
  kind : moved.kind = lexeme.kind
  text : moved.token.text = lexeme.token.text
  start : moved.token.start = distance + lexeme.token.start

theorem moved_onward (distance : Nat) (parts : List (TokenKind × Text)) (lead other : Text)
    (start : Nat) :
    List.Forall₂ (Moved distance) (onward lead start parts)
      (onward other (distance + start) parts) := by
  induction parts generalizing lead other start with
  | nil => exact .nil
  | cons part rest inductionHypothesis =>
      obtain ⟨kind, text⟩ := part
      cases isTrivia : kind.isTrivia with
      | true =>
          rw [onward_trivia isTrivia, onward_trivia isTrivia, Nat.add_assoc]
          exact inductionHypothesis _ _ _
      | false =>
          rw [onward_token isTrivia, onward_token isTrivia, Nat.add_assoc]
          exact .cons ⟨rfl, rfl, rfl⟩ (inductionHypothesis _ _ _)

theorem onward_append (front : List (TokenKind × Text)) (lead : Text) (start : Nat) :
    ∃ trailing, ∀ back, onward lead start (front ++ back) =
      onward lead start front ++
        onward trailing (start + Text.byteSize (front.map Prod.snd).flatten) back := by
  induction front generalizing lead start with
  | nil => exact ⟨lead, fun _ => rfl⟩
  | cons part rest inductionHypothesis =>
      obtain ⟨kind, text⟩ := part
      cases isTrivia : kind.isTrivia with
      | true =>
          obtain ⟨trailing, rows⟩ := inductionHypothesis (lead ++ text) (start + text.byteSize)
          refine ⟨trailing, fun back => ?_⟩
          rw [List.cons_append, onward_trivia isTrivia, onward_trivia isTrivia, rows]
          simp [Nat.add_assoc]
      | false =>
          obtain ⟨trailing, rows⟩ := inductionHypothesis [] (start + text.byteSize)
          refine ⟨trailing, fun back => ?_⟩
          rw [List.cons_append, onward_token isTrivia, onward_token isTrivia, rows]
          simp [Nat.add_assoc]

/-- Rows of which the last lexeme is neither garbage nor a pragma. -/
def EndsWell (row : List Lexeme) : Prop :=
  ∀ lexeme ∈ row.getLast?, lexeme.kind ≠ .garbage ∧ lexeme.kind ≠ .pragma

theorem settled_of_endsWell {text : Text} (endsWell : EndsWell (all text)) :
    Settled (Piece.all text) := by
  intro piece member
  obtain ⟨pieces, cut⟩ := List.getLast?_eq_some_iff.mp member
  obtain ⟨front, last, merged⟩ := Token.exists_merge_concat pieces piece
  have notIdle : ∀ kind : TokenKind, piece.kind.getD .garbage = kind → kind.isTrivia = false →
      kind ≠ .garbage ∧ kind ≠ .pragma := by
    rintro kind rfl notTrivia
    obtain ⟨inner, lead, stop, row, -⟩ := onward_append_token notTrivia last [] front [] 0
    have whole : all text = inner ++ [⟨lead, ⟨piece.kind.getD .garbage, last, stop⟩⟩] := by
      rw [all_eq_ahead, ahead, cut, merged]
      exact row
    apply endsWell ⟨lead, ⟨piece.kind.getD .garbage, last, stop⟩⟩
    rw [whole, List.getLast?_append]
    rfl
  constructor
  · intro isNone
    exact (notIdle .garbage (by rw [isNone]; rfl) rfl).1 rfl
  · intro isPragma
    exact (notIdle .pragma (by rw [isPragma]; rfl) rfl).2 rfl

/-- The parts of a text, and those of the text with blank space and more behind it. -/
theorem exists_joint {text : Text} (endsWell : EndsWell (all text)) {d : Char}
    (space : isSpace d = true) :
    ∃ (front : List (TokenKind × Text)) (back : Text), back.IsIdle ∧
      text = (front.map Prod.snd).flatten ++ back ∧
      Token.merge (Piece.all text) = front ++ Token.merge (Piece.all back) ∧
      ∀ more, Token.merge (Piece.all (text ++ d :: more)) =
        front ++ Token.merge (Piece.all (back ++ d :: more)) := by
  obtain ⟨pieces, back, cut, idle, rows⟩ :=
    all_append space text (settled_of_endsWell endsWell)
  refine ⟨Token.merge pieces, back, idle, ?_, ?_, ?_⟩
  · rw [Token.flatten_merge, ← Piece.flatten_all text, cut, List.map_append, List.flatten_append,
      Piece.flatten_all]
  · have starts : Starts (back ++ []) := idle.starts (by simp)
    rw [List.append_nil] at starts
    rw [cut]
    exact Token.merge_append_all starts pieces
  · intro more
    have blankHead : ∀ c ∈ (d :: more).head?, isSpace c = true := by
      intro c member
      rw [← Option.mem_some.mp member]
      exact space
    rw [rows]
    exact Token.merge_append_all (idle.starts blankHead) pieces

theorem all_eq_onward {text back : Text} {front : List (TokenKind × Text)} (idle : back.IsIdle)
    (parts : Token.merge (Piece.all text) = front ++ Token.merge (Piece.all back)) :
    all text = onward [] 0 front := by
  obtain ⟨trailing, cut⟩ := onward_append front [] 0
  rw [all_eq_ahead, ahead, parts, cut]
  exact (congrArg _ (ahead_idle idle trailing _)).trans (List.append_nil _)

/-- The lexemes of a text stay as they are if blank space stands behind it. -/
theorem all_append_blank {text : Text} (endsWell : EndsWell (all text)) {d : Char}
    (space : isSpace d = true) (unbroken : d ≠ '\n') : all (text ++ [d]) = all text := by
  obtain ⟨front, back, idle, -, parts, rows⟩ := exists_joint endsWell space
  rw [all_eq_onward (idle.append_blank space unbroken) (rows []), all_eq_onward idle parts]

/-- The lexemes of a text with a line feed behind it are its own and those that follow. -/
theorem ahead_append_lineFeed {text : Text} (endsWell : EndsWell (all text)) (lead : Text)
    (start : Nat) (more : Text) :
    ∃ row trailing, ahead lead start (text ++ '\n' :: more) =
        row ++ ahead trailing (start + Text.byteSize (text ++ ['\n'])) more ∧
      List.Forall₂ (Moved start) (all text) row := by
  obtain ⟨front, back, idle, whole, parts, rows⟩ := exists_joint endsWell (d := '\n') rfl
  obtain ⟨trailing, cut⟩ := onward_append front lead start
  refine ⟨onward lead start front, trailing ++ back ++ ['\n'], ?_, ?_⟩
  · have behind := ahead_idle_lineFeed idle trailing
      (start + Text.byteSize (front.map Prod.snd).flatten) more
    rw [ahead, rows, cut]
    refine (congrArg _ behind).trans ?_
    have sizes := congrArg Text.byteSize whole
    rw [Text.byteSize_append] at sizes
    rw [Text.byteSize_append, sizes, Nat.add_assoc, Nat.add_assoc, Nat.add_assoc]
  · rw [all_eq_onward idle parts]
    exact moved_onward start front [] lead 0

end Lexeme

end YulTree

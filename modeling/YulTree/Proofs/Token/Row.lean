import YulTree.Proofs.Token.Brace
import YulTree.Token.Lexeme

/-!
# Rows of lexemes

Where the lexemes of a source stand in it.  The text between two lexemes of a row is made up of
what the lexemes between them cover (`slice?_between`).
-/

namespace YulTree

/-- A text is cut at two positions by giving the three parts. -/
theorem Text.slice?_append (front part back : Text) {start stop : Nat}
    (startEq : front.byteSize = start) (stopEq : start + part.byteSize = stop) :
    Text.slice? start stop (front ++ (part ++ back)) = some part := by
  have first : splitAtByte? start (front ++ (part ++ back)) = some (front, part ++ back) :=
    splitAtByte?_eq_some_iff.mpr ⟨rfl, startEq⟩
  have second : splitAtByte? (stop - start) (part ++ back) = some (part, back) :=
    splitAtByte?_eq_some_iff.mpr ⟨rfl, by omega⟩
  simp [slice?, first, second]

namespace Token

/-- What stands behind some tokens is cut as it would be alone. -/
theorem merge_all_behind {source : Text} {front back : List (TokenKind × Text)}
    (cut : merge (Piece.all source) = front ++ back) :
    back = merge (Piece.all (back.map Prod.snd).flatten) := by
  fun_induction Piece.all source generalizing front with
  | case1 =>
      obtain ⟨-, rfl⟩ := List.append_eq_nil_iff.mp cut.symm
      rw [List.map_nil, List.flatten_nil, Piece.all]
      rfl
  | case2 c rest inductionHypothesis =>
      cases front with
      | nil =>
          rw [List.nil_append, ← Piece.all] at cut
          rw [← cut, flatten_merge_all]
      | cons first front =>
          generalize (Piece.firstPiece c rest).1 = piece at cut
          obtain ⟨own, covered⟩ := piece
          cases own with
          | some own => exact inductionHypothesis (List.cons.inj cut).2
          | none =>
              obtain ⟨more, others, merged, grown⟩ :=
                merge_cons_none covered (Piece.all (Piece.firstPiece c rest).2)
              rw [merged] at cut
              obtain ⟨-, rfl⟩ := List.cons.inj cut
              rcases grown with longer | ⟨-, same⟩
              · have remainder : merge (Piece.all (Piece.firstPiece c rest).2) =
                    ((.garbage, more) :: front) ++ back := longer
                exact inductionHypothesis remainder
              · exact inductionHypothesis same

theorem mem_significant_iff {source : Text} {token : Token} :
    token ∈ significant source ↔ token ∈ scan source ∧ token.kind.isTrivia = false := by
  rw [significant, List.mem_filter, Bool.not_eq_true']

end Token

namespace Lexeme

theorem token_mem_significant {source : Text} {lexeme : Lexeme} (member : lexeme ∈ all source) :
    lexeme.token ∈ Token.significant source := by
  rw [← tokens_all]
  exact List.mem_map_of_mem member

theorem token_mem_scan {source : Text} {lexeme : Lexeme} (member : lexeme ∈ all source) :
    lexeme.token ∈ Token.scan source :=
  (Token.mem_significant_iff.mp (token_mem_significant member)).1

def kind (lexeme : Lexeme) : TokenKind := lexeme.token.kind

def text (lexemes : List Lexeme) : Text := (lexemes.map whole).flatten

/-- The lexemes of a text at a position, of which some trivia have been read already. -/
def onward (lead : Text) (start : Nat) (parts : List (TokenKind × Text)) : List Lexeme :=
  ofTokens lead (Token.place start parts)

theorem onward_trivia {kind : TokenKind} (isTrivia : kind.isTrivia = true) (lead text : Text)
    (start : Nat) (rest : List (TokenKind × Text)) :
    onward lead start ((kind, text) :: rest) =
      onward (lead ++ text) (start + text.byteSize) rest := by
  rw [onward, Token.place, ofTokens, if_pos isTrivia]
  rfl

theorem onward_token {kind : TokenKind} (notTrivia : kind.isTrivia = false) (lead text : Text)
    (start : Nat) (rest : List (TokenKind × Text)) :
    onward lead start ((kind, text) :: rest) =
      ⟨lead, ⟨kind, text, start⟩⟩ :: onward [] (start + text.byteSize) rest := by
  rw [onward, Token.place, ofTokens, if_neg (by simp [notTrivia])]
  rfl

/-- What one lexeme of a row says about the parts that the row was made from. -/
theorem onward_eq_append {parts : List (TokenKind × Text)} {lead : Text} {start : Nat}
    {before after : List Lexeme} {lexeme : Lexeme}
    (row : onward lead start parts = before ++ lexeme :: after) :
    ∃ front back, parts = front ++ (lexeme.kind, lexeme.token.text) :: back ∧
      lead ++ (front.map Prod.snd).flatten = text before ++ lexeme.lead ∧
      lexeme.token.start = start + Text.byteSize (front.map Prod.snd).flatten ∧
      before.map kind = (front.map Prod.fst).filter (fun kind => !kind.isTrivia) ∧
      after = onward [] lexeme.token.stop back := by
  induction parts generalizing lead start before with
  | nil => exact absurd row (by simp [onward, Token.place, ofTokens])
  | cons part rest inductionHypothesis =>
      obtain ⟨kind, covered⟩ := part
      cases isTrivia : kind.isTrivia with
      | true =>
          rw [onward_trivia isTrivia] at row
          obtain ⟨front, back, rfl, texts, place, kinds, rfl⟩ := inductionHypothesis row
          refine ⟨(kind, covered) :: front, back, rfl, ?_, ?_, ?_, rfl⟩
          · rw [← texts, List.map_cons, List.flatten_cons, List.append_assoc]
          · rw [place, List.map_cons, List.flatten_cons, Text.byteSize_append, Nat.add_assoc]
          · rw [kinds, List.map_cons, List.filter_cons_of_neg (by simp [isTrivia])]
      | false =>
          rw [onward_token isTrivia] at row
          cases before with
          | nil =>
              obtain ⟨rfl, rfl⟩ := List.cons.inj row
              exact ⟨[], rest, rfl, by simp [text], rfl, rfl, rfl⟩
          | cons first before =>
              obtain ⟨rfl, tailRow⟩ := List.cons.inj row
              obtain ⟨front, back, rfl, texts, place, kinds, rfl⟩ := inductionHypothesis tailRow
              refine ⟨(kind, covered) :: front, back, rfl, ?_, ?_, ?_, rfl⟩
              · rw [List.nil_append] at texts
                rw [List.map_cons, List.flatten_cons, texts]
                simp [text, whole]
              · rw [place, List.map_cons, List.flatten_cons, Text.byteSize_append, Nat.add_assoc]
              · rw [List.map_cons, kinds, List.map_cons,
                  List.filter_cons_of_pos (by simp [isTrivia])]
                rfl

/-- Two lexemes of a source and those between them, and the parts that they were made from. -/
theorem parts_between {source : Text} {before inner after : List Lexeme}
    {opening closing : Lexeme}
    (row : all source = before ++ opening :: (inner ++ closing :: after)) :
    ∃ front between back,
      Token.merge (Piece.all source) =
        front ++ (opening.kind, opening.token.text) ::
          (between ++ (closing.kind, closing.token.text) :: back) ∧
      (between.map Prod.snd).flatten = text inner ++ closing.lead ∧
      inner.map kind = (between.map Prod.fst).filter (fun kind => !kind.isTrivia) ∧
      opening.token.start = Text.byteSize (front.map Prod.snd).flatten ∧
      closing.token.start =
        opening.token.stop + Text.byteSize (between.map Prod.snd).flatten := by
  obtain ⟨front, rest, parts, -, openingStart, -, innerRow⟩ := onward_eq_append row
  obtain ⟨between, back, rfl, texts, closingStart, kinds, -⟩ := onward_eq_append innerRow.symm
  rw [Nat.zero_add] at openingStart
  exact ⟨front, between, back, parts, texts, kinds, openingStart, closingStart⟩

/-- The source in front of, between and behind two lexemes. -/
theorem cut_between {source : Text} {before inner after : List Lexeme}
    {opening closing : Lexeme}
    (row : all source = before ++ opening :: (inner ++ closing :: after)) :
    ∃ front back, source = front ++ ((text inner ++ closing.lead) ++ back) ∧
      front.byteSize = opening.token.stop ∧
      opening.token.stop + (text inner ++ closing.lead).byteSize = closing.token.start := by
  obtain ⟨front, between, back, parts, texts, -, openingStart, closingStart⟩ :=
    parts_between row
  have whole := Token.flatten_merge_all source
  rw [parts] at whole
  refine ⟨(front.map Prod.snd).flatten ++ opening.token.text,
    closing.token.text ++ (back.map Prod.snd).flatten, ?_, ?_, ?_⟩
  · rw [← texts, ← whole]
    simp
  · rw [Text.byteSize_append, ← openingStart]
    rfl
  · rw [← texts, closingStart]

/-- The source between two lexemes. -/
theorem slice?_between {source : Text} {before inner after : List Lexeme}
    {opening closing : Lexeme}
    (row : all source = before ++ opening :: (inner ++ closing :: after)) :
    source.slice? opening.token.stop closing.token.start =
      some (text inner ++ closing.lead) := by
  obtain ⟨front, back, cut, frontSize, bodySize⟩ := cut_between row
  rw [cut]
  exact Text.slice?_append _ _ _ frontSize bodySize

end Lexeme

end YulTree

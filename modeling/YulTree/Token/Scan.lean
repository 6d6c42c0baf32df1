import YulTree.Token.Piece

/-!
# The tokens of a source

A source is cut into pieces from left to right.  Adjacent pieces that are no tokens make up
one token of garbage, and every token is given its byte position.  The main statement is
`flatten_texts_scan`: nothing of the source is lost.
-/

namespace YulTree

namespace Piece

def all : Text → List Piece
  | [] => []
  | c :: rest => (firstPiece c rest).1 :: all (firstPiece c rest).2
termination_by text => text.length
decreasing_by exact firstPiece_rest_length c rest

/-- The text that a list of pieces was cut from. -/
theorem flatten_all (text : Text) : ((all text).map Piece.text).flatten = text := by
  fun_induction all text with
  | case1 => rfl
  | case2 c rest inductionHypothesis =>
      rw [List.map_cons, List.flatten_cons, inductionHypothesis, firstPiece_append]

end Piece

namespace Token

/-- The kinds and texts of the tokens that pieces make up: garbage grows as long as no token
starts. -/
def merge : List Piece → List (TokenKind × Text)
  | [] => []
  | ⟨some kind, text⟩ :: rest => (kind, text) :: merge rest
  | ⟨none, text⟩ :: rest =>
      match merge rest with
      | (.garbage, more) :: others => (.garbage, text ++ more) :: others
      | others => (.garbage, text) :: others

def place (start : Nat) : List (TokenKind × Text) → List Token
  | [] => []
  | (kind, text) :: rest => ⟨kind, text, start⟩ :: place (start + text.byteSize) rest

/-- The tokens of a source, blank space and comments included. -/
def scan (source : Text) : List Token := place 0 (merge (Piece.all source))

def significant (source : Text) : List Token :=
  (scan source).filter fun token => !token.kind.isTrivia

theorem flatten_merge (pieces : List Piece) :
    ((merge pieces).map Prod.snd).flatten = (pieces.map Piece.text).flatten := by
  fun_induction merge pieces with
  | case1 => rfl
  | case2 kind text rest inductionHypothesis => simp [inductionHypothesis]
  | case3 text rest more others merged inductionHypothesis =>
      rw [merged] at inductionHypothesis
      simp [← inductionHypothesis]
  | case4 text rest _ inductionHypothesis => simp [← inductionHypothesis]

theorem texts_place (start : Nat) (parts : List (TokenKind × Text)) :
    (place start parts).map Token.text = parts.map Prod.snd := by
  fun_induction place start parts with
  | case1 => rfl
  | case2 start kind text rest inductionHypothesis => simp [inductionHypothesis]

/-- The texts of the tokens make up the source. -/
theorem flatten_texts_scan (source : Text) :
    ((scan source).map Token.text).flatten = source := by
  rw [scan, texts_place, flatten_merge, Piece.flatten_all]

end Token

end YulTree

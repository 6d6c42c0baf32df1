import YulTree.Token.Scan

/-!
# Lexemes

A token that has a meaning, together with the blank space and the comments in front of it.
Between the first and the last of a row of lexemes nothing of the source is left out, so a
code body can be put together from them.
-/

namespace YulTree

/-- A token, and what stands between the token before and it. -/
structure Lexeme where
  lead : Text
  token : Token
  deriving DecidableEq, Repr

namespace Lexeme

def whole (lexeme : Lexeme) : Text := lexeme.lead ++ lexeme.token.text

/-- Tokens with the trivia before each of them, of which some may have been read already. -/
def ofTokens (lead : Text) : List Token → List Lexeme
  | [] => []
  | token :: rest =>
      if token.kind.isTrivia then ofTokens (lead ++ token.text) rest
      else ⟨lead, token⟩ :: ofTokens [] rest

def all (source : Text) : List Lexeme := ofTokens [] (Token.scan source)

theorem tokens_ofTokens (lead : Text) (tokens : List Token) :
    (ofTokens lead tokens).map Lexeme.token =
      tokens.filter fun token => !token.kind.isTrivia := by
  fun_induction ofTokens lead tokens with
  | case1 => rfl
  | case2 lead token rest isTrivia inductionHypothesis =>
      simp [isTrivia, inductionHypothesis]
  | case3 lead token rest isSignificant inductionHypothesis =>
      simp [isSignificant, inductionHypothesis]

/-- The tokens of the lexemes are the significant tokens of the source. -/
theorem tokens_all (source : Text) :
    (all source).map Lexeme.token = Token.significant source :=
  tokens_ofTokens [] (Token.scan source)

end Lexeme

end YulTree

import YulTree.Proofs.Code.Printed
import YulTree.Proofs.Token.Substance

/-!
# Tokens of code bodies

Trimming and indenting lines of code loses no token, joins no two and splits none, as long as every
piece of the code is a token.  So a body has the tokens that are left when it is kept as a block
(`mem_substance?_text`) and when the block is printed at any level (`mem_substance?_bodyAt`).
-/

namespace YulTree

namespace Text

/-- Lines that follow something, each of them behind a line feed. -/
def following (lines : List Text) : Text := lines.flatMap fun line => '\n' :: line

theorem following_cons (line : Text) (rest : List Text) :
    following (line :: rest) = '\n' :: (line ++ following rest) := rfl

theorem following_append (first second : List Text) :
    following (first ++ second) = following first ++ following second := List.flatMap_append

theorem following_eq_cons {lines : List Text} (nonempty : lines ≠ []) :
    following lines = '\n' :: ofLines lines := by
  induction lines with
  | nil => exact absurd rfl nonempty
  | cons line rest inductionHypothesis =>
      cases rest with
      | nil =>
          rw [ofLines_singleton, following_cons]
          exact congrArg _ (List.append_nil line)
      | cons second others =>
          have more := List.cons_ne_nil second others
          rw [following_cons, inductionHypothesis more, ofLines_cons more]

theorem startsBlank_following (lines : List Text) : StartsBlank (following lines) := by
  cases lines with
  | nil => exact List.forall_mem_nil _
  | cons line rest =>
      rw [StartsBlank, following_cons, List.takeWhile_cons_of_neg (by simp)]
      exact List.forall_mem_nil _

theorem dropWhile_following (lines : List Text) :
    (following lines).dropWhile (· != '\n') = following lines := by
  cases lines with
  | nil => rfl
  | cons line rest => exact List.dropWhile_cons_of_neg (by simp)

theorem substance?_lineFeed (text : Text) (inComment : Bool) :
    substance? inComment ('\n' :: text) = substance? inComment text := by
  have spaces : ∀ c ∈ ['\n'], Piece.isSpace c = true := by simp [Piece.isSpace]
  exact substance?_spaces spaces text inComment

/-- It makes no difference whether the first line is behind a line feed. -/
theorem substance?_following (lines : List Text) :
    (following lines).substance? false = (ofLines lines).substance? false := by
  by_cases none : lines = []
  · rw [none]
    rfl
  · rw [following_eq_cons none, substance?_lineFeed]

/-- Nothing is lost if lines are replaced, whatever line is before and whatever lines follow. -/
def Keeps (first second : List Text) : Prop :=
  ∀ (more : List Text) (inComment : Bool),
    ∀ parts ∈ (following (first ++ more)).substance? inComment,
      parts ∈ (following (second ++ more)).substance? inComment

namespace Keeps

theorem refl (lines : List Text) : Keeps lines lines := fun _ _ _ member => member

theorem trans {first second third : List Text} (keeps : Keeps first second)
    (keepsNext : Keeps second third) : Keeps first third :=
  fun more inComment parts member =>
    keepsNext more inComment parts (keeps more inComment parts member)

theorem append {first second front back : List Text} (keeps : Keeps first second)
    (keepsRest : Keeps front back) : Keeps (first ++ front) (second ++ back) := by
  intro more inComment parts member
  rw [List.append_assoc] at member ⊢
  have replaced := keeps (front ++ more) inComment parts member
  rw [following_append] at replaced ⊢
  refine mem_substance?_append (startsBlank_following _) (startsBlank_following _)
    (keepsRest more) ?_ (following second) inComment parts replaced
  rw [dropWhile_following, dropWhile_following]
  exact keepsRest more false

/-- Blank space is taken away at the start of a line. -/
theorem drop_blank {front : Text} (isBlank : ∀ c ∈ front, blank.contains c = true) (line : Text) :
    Keeps [front ++ line] [line] := by
  intro more inComment parts member
  rw [List.singleton_append, following_cons, substance?_lineFeed] at member ⊢
  rw [List.append_assoc] at member
  exact mem_substance?_of_blank isBlank _ inComment parts member

/-- Spaces are put at the start of a line. -/
theorem put_spaces {front : Text} (spaces : ∀ c ∈ front, Piece.isSpace c = true) (line : Text) :
    Keeps [line] [front ++ line] := by
  intro more inComment parts member
  rw [List.singleton_append, following_cons, substance?_lineFeed] at member ⊢
  rw [List.append_assoc, substance?_spaces spaces]
  exact member

/-- Blank space is taken away at the end of a line. -/
theorem drop_trailing {back : Text} (isBlank : ∀ c ∈ back, blank.contains c = true)
    (unbroken : '\n' ∉ back) (line : Text) : Keeps [line ++ back] [line] := by
  intro more inComment parts member
  have goesOn : ∀ c ∈ back, (c != '\n') = true := by
    intro c inBack
    rw [bne_iff_ne]
    rintro rfl
    exact unbroken inBack
  have startsBlank : StartsBlank (back ++ following more) := by
    rw [StartsBlank, List.takeWhile_append_of_pos goesOn]
    intro c inLine
    rcases List.mem_append.mp inLine with inBack | behind
    · exact isBlank c inBack
    · exact startsBlank_following more c behind
  rw [List.singleton_append, following_cons, ← List.cons_append] at member ⊢
  rw [← List.cons_append, List.append_assoc] at member
  refine mem_substance?_append startsBlank (startsBlank_following more)
    (fun inComment => mem_substance?_of_blank isBlank _ inComment) ?_ ('\n' :: line) inComment
    parts member
  rw [List.dropWhile_append_of_pos goesOn]
  exact fun _ found => found

/-- An empty line makes no difference. -/
theorem empty (more : List Text) (inComment : Bool) :
    (following ([[]] ++ more)).substance? inComment = (following more).substance? inComment :=
  substance?_lineFeed (following more) inComment

/-- Nothing is lost by edits of blank space. -/
theorem of_edited {first second : List Text} (edited : Edited first second) :
    Keeps first second := by
  induction edited with
  | refl lines => exact refl lines
  | trans _ _ keeps keepsNext => exact keeps.trans keepsNext
  | append _ _ keeps keepsRest => exact keeps.append keepsRest
  | dropStart line isBlank => exact drop_blank isBlank line
  | dropEnd line isBlank unbroken => exact drop_trailing isBlank unbroken line
  | dropEmpty =>
      intro more inComment parts member
      rw [empty] at member
      exact member
  | putStart line spaces => exact put_spaces spaces line
  | putEmpty =>
      intro more inComment parts member
      rw [empty]
      exact member

end Keeps

end Text

namespace Block

open Text

theorem mem_substance?_normalize {body : Text} {parts : List (TokenKind × Text)}
    (found : parts ∈ body.substance? false) :
    parts ∈ (following (normalize body)).substance? false := by
  have keeps := Keeps.of_edited (edited_normalize body) [] false parts
  rw [List.append_nil, List.append_nil, substance?_following, ofLines_lines] at keeps
  exact keeps found

/-- A body has the tokens that its block is left with. -/
theorem mem_substance?_text {body : Text} {parts : List (TokenKind × Text)}
    (found : parts ∈ body.substance? false) : parts ∈ (ofBody body).text.substance? false := by
  have kept := mem_substance?_normalize found
  rw [substance?_following] at kept
  exact kept

/-- A body has the tokens of what stands between the braces of its printed block. -/
theorem mem_substance?_bodyAt {body : Text} {parts : List (TokenKind × Text)}
    (found : parts ∈ body.substance? false) (level : Nat) :
    parts ∈ ((ofBody body).bodyAt level).substance? false := by
  have kept := mem_substance?_normalize found
  unfold bodyAt
  split
  · next empty =>
      have noLines : normalize body = [] := List.isEmpty_iff.mp empty
      have space : Text.substance? false [' '] = some [] := by
        rw [substance?_space rfl, substance?_nil]
      have nothing : (following []).substance? false = some [] := substance?_nil
      rw [noLines, nothing] at kept
      exact space ▸ kept
  · next nonempty =>
      have lineNonempty : (normalize body).map (shiftLine (level + 1)) ≠ [] :=
        fun none => lines_ne_nil nonempty (List.map_eq_nil_iff.mp none)
      have laid : laidOut (level + 1) (margin level) (normalize body) =
          following ((normalize body).map (shiftLine (level + 1)) ++ [margin level]) := by
        rw [following_append, following_eq_cons lineNonempty, following_cons]
        simp [laidOut, following]
      have edited : Edited (normalize body)
          ((normalize body).map (shiftLine (level + 1)) ++ [margin level]) := by
        have closing : Edited [] [margin level] := .putLine fun _ => isSpace_of_mem_margin
        have whole := (edited_shiftLines (level + 1) (normalize body)).append closing
        rw [List.append_nil] at whole
        exact whole
      have shifted := Keeps.of_edited edited [] false parts
      rw [List.append_nil, List.append_nil, ← laid] at shifted
      exact shifted kept

end Block

end YulTree

import YulTree.Proofs.Code.Layout
import YulTree.Token.Piece

/-!
# Edits of blank space

Lines of code are normalized, and laid out between braces, by edits of the blank space in them
(`edited_normalize`, `edited_shiftLines`).  What no single edit changes is not changed by these
either.
-/

namespace YulTree

namespace Text

/-- Reflexive-transitive closure of edits of blank space.  Context on both sides is supplied by
`append`, since each of the edits is of a single line.  What is put in is put in as spaces. -/
inductive Edited : List Text → List Text → Prop
  | refl (lines : List Text) : Edited lines lines
  | trans {first second third : List Text} :
      Edited first second → Edited second third → Edited first third
  | append {first second front back : List Text} :
      Edited first second → Edited front back → Edited (first ++ front) (second ++ back)
  | dropStart {front : Text} (line : Text) : front.IsBlank → Edited [front ++ line] [line]
  | dropEnd {back : Text} (line : Text) : back.IsBlank → '\n' ∉ back → Edited [line ++ back] [line]
  | dropEmpty : Edited [[]] []
  | putStart {front : Text} (line : Text) :
      (∀ c ∈ front, Piece.isSpace c = true) → Edited [line] [front ++ line]
  | putEmpty : Edited [] [[]]

theorem blank_of_isSpace {c : Char} (isSpace : Piece.isSpace c = true) :
    blank.contains c = true := by
  simp only [Piece.isSpace, Bool.or_eq_true, beq_iff_eq] at isSpace
  rcases isSpace with ((rfl | rfl) | rfl) | rfl <;> decide

theorem isSpace_of_mem_margin {level : Nat} {c : Char} (member : c ∈ margin level) :
    Piece.isSpace c = true := by
  obtain rfl := mem_margin member
  rfl

namespace Edited

/-- Lines are edited if each of them is. -/
theorem map {change : Text → Text} {lines : List Text}
    (each : ∀ line ∈ lines, Edited [line] [change line]) : Edited lines (lines.map change) := by
  induction lines with
  | nil => exact refl []
  | cons line rest inductionHypothesis =>
      obtain ⟨first, others⟩ := List.forall_mem_cons.mp each
      exact first.append (inductionHypothesis others)

theorem dropLines {lines : List Text} (allEmpty : ∀ line ∈ lines, line = []) :
    Edited lines [] := by
  induction lines with
  | nil => exact refl []
  | cons line rest inductionHypothesis =>
      obtain ⟨isEmpty, restEmpty⟩ := List.forall_mem_cons.mp allEmpty
      rw [isEmpty]
      exact dropEmpty.append (inductionHypothesis restEmpty)

/-- Empty lines around others are left out. -/
theorem dropAround {front back : List Text} (frontEmpty : ∀ line ∈ front, line = [])
    (lines : List Text) (backEmpty : ∀ line ∈ back, line = []) :
    Edited (front ++ (lines ++ back)) lines := by
  have edited := (dropLines frontEmpty).append ((refl lines).append (dropLines backEmpty))
  rw [List.nil_append, List.append_nil] at edited
  exact edited

/-- A line of spaces is put in. -/
theorem putLine {line : Text} (spaces : ∀ c ∈ line, Piece.isSpace c = true) :
    Edited [] [line] := by
  have edited := putEmpty.trans (putStart [] spaces)
  rw [List.append_nil] at edited
  exact edited

theorem trimEnd {line : Text} (unbroken : '\n' ∉ line) : Edited [line] [line.trimEnd] := by
  obtain ⟨dropped, split, isBlank⟩ := dropTrailing_split blank.contains line
  have droppedUnbroken : '\n' ∉ dropped := by
    intro broken
    rw [split] at unbroken
    exact unbroken (List.mem_append_right _ broken)
  have edited := dropEnd line.trimEnd isBlank droppedUnbroken
  rw [Text.trimEnd, ← split] at edited
  exact edited

theorem trimStart (line : Text) : Edited [line] [line.trimStart] := by
  have isBlank : Text.IsBlank (line.takeWhile blank.contains) :=
    List.all_eq_true.mp List.all_takeWhile
  have edited := dropStart line.trimStart isBlank
  rw [Text.trimStart, List.takeWhile_append_dropWhile] at edited
  exact edited

theorem shiftLine (level : Nat) (line : Text) : Edited [line] [line.shiftLine level] := by
  by_cases empty : line = []
  · rw [empty]
    exact refl _
  · rw [shiftLine_of_ne_nil empty]
    exact putStart line fun _ => isSpace_of_mem_margin

end Edited

end Text

namespace Block

open Text

theorem edited_drop {line : Text} {count : Nat} (few : line ≠ [] → count ≤ leadingBlanks line) :
    Edited [line] [line.drop count] := by
  by_cases empty : line = []
  · rw [empty, List.drop_nil]
    exact .refl _
  · obtain ⟨front, split, -, isSpace⟩ := split_leadingBlanks (few empty)
    have isBlank : front.IsBlank := by
      intro c member
      rcases isSpace c member with rfl | rfl <;> decide
    have edited := Edited.dropStart (line.drop count) isBlank
    rw [← split] at edited
    exact edited

/-- The lines of a body are edited, each at its place. -/
theorem edited_editedLines {lines : List Text} {indentation : Nat}
    (unbroken : ∀ line ∈ lines, '\n' ∉ line)
    (few : ∀ line ∈ lines.tail, ¬ line.IsBlank → indentation ≤ leadingBlanks line) :
    Edited lines (editedLines indentation lines) := by
  cases lines with
  | nil => exact .refl []
  | cons opening rest =>
      obtain ⟨openingUnbroken, restUnbroken⟩ := List.forall_mem_cons.mp unbroken
      have editedOpening : Edited [opening] [opening.trimEnd.trimStart] :=
        (Edited.trimEnd openingUnbroken).trans (.trimStart _)
      have editedLater : Edited rest (rest.map fun line => line.trimEnd.drop indentation) := by
        apply Edited.map
        intro line member
        apply (Edited.trimEnd (restUnbroken line member)).trans
        apply edited_drop
        intro nonempty
        have notBlank : ¬ line.IsBlank := fun isBlank => nonempty (trimEnd_eq_nil_iff.mpr isBlank)
        rw [leadingBlanks_trimEnd notBlank]
        exact few line member notBlank
      exact editedOpening.append editedLater

theorem edited_dropOuterBlank (lines : List Text) : Edited lines (dropOuterBlank lines) := by
  obtain ⟨front, back, split, frontEmpty, backEmpty⟩ := dropOuterBlank_split lines
  have edited := Edited.dropAround frontEmpty (dropOuterBlank lines) backEmpty
  rw [← split] at edited
  exact edited

/-- A body is normalized by edits of its lines. -/
theorem edited_normalize (body : Text) : Edited (Text.lines body) (normalize body) := by
  rw [normalize_eq_dropOuterBlank]
  apply (edited_editedLines (fun _ => unbroken_of_mem_lines) fun _ => bodyIndent_le).trans
  exact edited_dropOuterBlank _

/-- Lines are moved to a level by edits. -/
theorem edited_shiftLines (level : Nat) (lines : List Text) :
    Edited lines (lines.map (Text.shiftLine level)) :=
  Edited.map fun line _ => .shiftLine level line

end Block

end YulTree

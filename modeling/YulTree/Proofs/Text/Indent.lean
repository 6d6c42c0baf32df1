import YulTree.Proofs.Text.Segment
import YulTree.Text.Lines

/-!
# Indented texts

What becomes of a text that is indented by several levels: each level of a tree indents all
that is printed below it, so a printed text is read at the depth at which it stands.
-/

namespace YulTree.Text

theorem lines_ne_nil (text : Text) : lines text ≠ [] := List.splitOn_ne_nil _ text

theorem lines_append (first second : Text) :
    lines (first ++ '\n' :: second) = lines first ++ lines second :=
  List.splitOn_append_cons_self first second

theorem lines_of_unbroken {line : Text} (unbroken : '\n' ∉ line) : lines line = [line] :=
  List.splitOn_eq_singleton unbroken

theorem unbroken_of_mem_lines {text line : Text} (member : line ∈ lines text) :
    '\n' ∉ line := not_mem_of_mem_splitOn member

@[simp]
theorem ofLines_singleton (line : Text) : ofLines [line] = line :=
  List.intercalate_singleton

theorem ofLines_cons {line : Text} {rest : List Text} (more : rest ≠ []) :
    ofLines (line :: rest) = line ++ '\n' :: ofLines rest := by
  rw [ofLines, List.intercalate_cons_of_ne_nil more, List.append_assoc]
  rfl

theorem ofLines_append {first second : List Text} (firstNonempty : first ≠ [])
    (secondNonempty : second ≠ []) :
    ofLines (first ++ second) = ofLines first ++ '\n' :: ofLines second :=
  intercalate_append firstNonempty secondNonempty

/-- The blank space in front of a line at a level. -/
def margin : Nat → Text
  | 0 => []
  | level + 1 => indentation ++ margin level

def shiftLine (level : Nat) (line : Text) : Text :=
  if line.isEmpty then [] else margin level ++ line

/-- A text with every line moved to a level unless it is empty. -/
def shift (level : Nat) (text : Text) : Text :=
  ofLines ((lines text).map (shiftLine level))

theorem mem_margin {level : Nat} {c : Char} (member : c ∈ margin level) : c = ' ' := by
  induction level with
  | zero => exact absurd member List.not_mem_nil
  | succ level inductionHypothesis =>
      rcases List.mem_append.mp member with inIndentation | inMargin
      · simpa [indentation] using inIndentation
      · exact inductionHypothesis inMargin

theorem margin_succ (level : Nat) : margin (level + 1) = margin level ++ indentation := by
  induction level with
  | zero => rfl
  | succ level inductionHypothesis =>
      rw [margin, inductionHypothesis, ← List.append_assoc, ← inductionHypothesis]
      rfl

theorem shiftLine_of_ne_nil {line : Text} (nonempty : line ≠ []) (level : Nat) :
    shiftLine level line = margin level ++ line := by
  simp [shiftLine, nonempty]

@[simp]
theorem shiftLine_nil (level : Nat) : shiftLine level [] = [] := rfl

theorem shiftLine_unbroken {line : Text} (unbroken : '\n' ∉ line) (level : Nat) :
    '\n' ∉ shiftLine level line := by
  unfold shiftLine
  split
  · exact List.not_mem_nil
  · rw [List.mem_append, not_or]
    exact ⟨fun member => absurd (mem_margin member) (by decide), unbroken⟩

theorem indentLine_eq_shiftLine (line : Text) : indentLine line = shiftLine 1 line := by
  cases line <;> rfl

theorem shiftLine_indentLine (level : Nat) (line : Text) :
    shiftLine level (indentLine line) = shiftLine (level + 1) line := by
  cases line with
  | nil => rfl
  | cons c rest =>
      have indented : indentLine (c :: rest) = indentation ++ c :: rest := rfl
      rw [indented, shiftLine_of_ne_nil (by simp [indentation]),
        shiftLine_of_ne_nil (by simp), margin_succ, List.append_assoc]

theorem shift_zero (text : Text) : shift 0 text = text := by
  have same : ∀ line, shiftLine 0 line = line := by
    intro line
    cases line <;> rfl
  rw [shift, funext same, List.map_id', ofLines_lines]

theorem lines_indent (text : Text) : lines (indent text) = (lines text).map indentLine := by
  refine lines_ofLines ?_ ?_
  · simp [lines_ne_nil]
  · intro line member
    obtain ⟨original, originalMember, rfl⟩ := List.mem_map.mp member
    rw [indentLine_eq_shiftLine]
    exact shiftLine_unbroken (unbroken_of_mem_lines originalMember) 1

/-- A text that is indented further stands one level deeper. -/
theorem shift_indent (level : Nat) (text : Text) :
    shift level (indent text) = shift (level + 1) text := by
  rw [shift, lines_indent, List.map_map, shift]
  refine congrArg ofLines (List.map_congr_left fun line _ => ?_)
  exact shiftLine_indentLine level line

theorem shift_append (level : Nat) (first second : Text) :
    shift level (first ++ '\n' :: second) = shift level first ++ '\n' :: shift level second := by
  rw [shift, lines_append, List.map_append, ofLines_append]
  · rfl
  · simp [lines_ne_nil]
  · simp [lines_ne_nil]

/-- A line is moved as a whole. -/
theorem shift_line {line : Text} (nonempty : line ≠ []) (unbroken : '\n' ∉ line) (level : Nat) :
    shift level line = margin level ++ line := by
  rw [shift, lines_of_unbroken unbroken, List.map_singleton, ofLines_singleton,
    shiftLine_of_ne_nil nonempty]

end YulTree.Text

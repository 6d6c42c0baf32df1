import YulTree.Text.Basic

/-!
# Lines

A text is a sequence of lines with line feeds between them: `ofLines` and `lines` undo each
other.
-/

namespace YulTree.Text

/-- The lines of a text, without the line feeds that separate them. -/
def lines (text : Text) : List Text := text.splitOn '\n'

def ofLines (parts : List Text) : Text := ['\n'].intercalate parts

@[simp]
theorem ofLines_lines (text : Text) : ofLines (lines text) = text :=
  List.intercalate_splitOn '\n'

/-- Lines are recovered from the text they form. -/
theorem lines_ofLines {parts : List Text} (nonempty : parts ≠ [])
    (unbroken : ∀ part ∈ parts, '\n' ∉ part) : lines (ofLines parts) = parts :=
  List.splitOn_intercalate '\n' unbroken nonempty

/-- What one level of indentation puts in front of a line. -/
def indentation : Text := "    "

def indentLine (line : Text) : Text :=
  if line.isEmpty then [] else indentation ++ line

/-- A text with every line indented unless it is empty. -/
def indent (text : Text) : Text := ofLines ((lines text).map indentLine)

end YulTree.Text

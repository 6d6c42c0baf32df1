import YulTree.Proofs.Code.Normal

/-!
# Line endings

Texts whose lines end with a carriage return and a line feed.  The returns are blank space at the
ends of lines, which normal lines do not keep (`normalize_crlf`).
-/

namespace YulTree

/-- Blank elements behind a list are dropped like those at its end. -/
theorem dropTrailing_concat {α : Type} {test : α → Bool} {last : α} (dropped : test last = true)
    (front : List α) : dropTrailing test (front ++ [last]) = dropTrailing test front := by
  induction front with
  | nil => simp [dropTrailing, dropped]
  | cons a rest inductionHypothesis =>
      rw [List.cons_append, dropTrailing, inductionHypothesis, dropTrailing]

namespace Text

/-- A text with a carriage return in front of every line feed. -/
def crlf (text : Text) : Text := text.flatMap fun c => if c = '\n' then ['\r', '\n'] else [c]

@[simp]
theorem crlf_nil : crlf [] = [] := rfl

@[simp]
theorem crlf_lineFeed (rest : Text) : crlf ('\n' :: rest) = '\r' :: '\n' :: crlf rest := rfl

theorem crlf_cons {c : Char} (unbroken : c ≠ '\n') (rest : Text) :
    crlf (c :: rest) = c :: crlf rest := by
  rw [crlf, List.flatMap_cons, if_neg unbroken]
  rfl

@[simp]
theorem crlf_append (first second : Text) : crlf (first ++ second) = crlf first ++ crlf second :=
  List.flatMap_append

theorem crlf_eq_self {text : Text} (unbroken : '\n' ∉ text) : crlf text = text := by
  induction text with
  | nil => rfl
  | cons c rest inductionHypothesis =>
      rw [List.mem_cons, not_or] at unbroken
      rw [crlf_cons (Ne.symm unbroken.1), inductionHypothesis unbroken.2]

theorem length_le_length_crlf (text : Text) : text.length ≤ (crlf text).length := by
  induction text with
  | nil => exact Nat.le_refl _
  | cons c rest inductionHypothesis =>
      by_cases isBreak : c = '\n'
      · subst isBreak
        simp only [crlf_lineFeed, List.length_cons]
        omega
      · rw [crlf_cons isBreak, List.length_cons, List.length_cons]
        omega

/-- Only texts without line feeds stay as they are. -/
theorem unbroken_of_crlf_eq {text : Text} (same : crlf text = text) : '\n' ∉ text := by
  intro member
  obtain ⟨front, back, rfl⟩ := List.append_of_mem member
  have frontLength := length_le_length_crlf front
  have backLength := length_le_length_crlf back
  have lengths := congrArg List.length same
  rw [crlf_append, crlf_lineFeed] at lengths
  simp only [List.length_append, List.length_cons] at lengths
  omega

/-- Carriage returns in front of line feeds are blank space at the ends of lines.  The line that
has begun in front of the text is `front`. -/
theorem map_trimEnd_lines_crlf {front : Text} (unbroken : '\n' ∉ front) (text : Text) :
    (lines (front ++ crlf text)).map trimEnd = (lines (front ++ text)).map trimEnd := by
  induction text generalizing front with
  | nil => rfl
  | cons c rest inductionHypothesis =>
      by_cases isBreak : c = '\n'
      · subst isBreak
        have returned : '\n' ∉ front ++ ['\r'] := by simp [unbroken]
        have trimmed : trimEnd (front ++ ['\r']) = trimEnd front :=
          dropTrailing_concat (by decide) front
        have restLines := inductionHypothesis (List.not_mem_nil : '\n' ∉ ([] : Text))
        rw [List.nil_append, List.nil_append] at restLines
        rw [crlf_lineFeed, List.append_cons, lines_append, lines_append,
          lines_of_unbroken returned, lines_of_unbroken unbroken, List.map_append,
          List.map_append, restLines, List.map_singleton, List.map_singleton, trimmed]
      · have goesOn : '\n' ∉ front ++ [c] := by simp [unbroken, Ne.symm isBreak]
        rw [crlf_cons isBreak, List.append_cons, List.append_cons front c rest]
        exact inductionHypothesis goesOn

end Text

/-- Code is kept without its line endings. -/
theorem Block.normalize_crlf (body : Text) : normalize body.crlf = normalize body := by
  have sameLines := Text.map_trimEnd_lines_crlf (List.not_mem_nil : '\n' ∉ ([] : Text)) body
  rw [List.nil_append, List.nil_append] at sameLines
  rw [normalize, normalize, sameLines]

end YulTree

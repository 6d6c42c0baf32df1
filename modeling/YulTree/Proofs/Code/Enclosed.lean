import YulTree.Proofs.Code.Edited
import YulTree.Proofs.Token.Cut

/-!
# Braces in code lines

Trimming and indenting lines of code hides no brace and shows none: what a scan sees in a line
does not depend on the blank space at its two ends, because every line starts in a calm mode.
So the normal lines of a body can be written between braces whenever the body stood there
(`isEnclosed_laidOut`).
-/

namespace YulTree

namespace Mode

/-- A mode in which a line may start. -/
def IsCalm (mode : Mode) : Prop := mode.next '\n' = mode

theorem isCalm_plain : Mode.plain.IsCalm := rfl

theorem isCalm_next (mode : Mode) : (mode.next '\n').IsCalm := by
  cases mode <;> simp [IsCalm, next, opened]

theorem eq_plain_of_sees {mode : Mode} (sees : mode.sees = true) : mode.next '\n' = .plain := by
  cases mode with
  | plain | slash => rfl
  | lineComment | blockComment | star | quoted | escaped => cases sees

theorem ne_of_blank {c d : Char} (isBlank : Text.blank.contains c = true)
    (notBlank : Text.blank.contains d = false) : c ≠ d := by
  rintro rfl
  rw [isBlank] at notBlank
  cases notBlank

theorem mark_blank {c : Char} (isBlank : Text.blank.contains c = true) (mode : Mode) :
    mode.mark c = none := by
  have notOpen : c ≠ '\x7b' := ne_of_blank isBlank (by decide)
  have notClose : c ≠ '\x7d' := ne_of_blank isBlank (by decide)
  simp [mark, brace?, notOpen, notClose]

theorem opened_blank {c : Char} (isBlank : Text.blank.contains c = true) : opened c = .plain := by
  have notSlash : c ≠ '/' := ne_of_blank isBlank (by decide)
  have notDouble : c ≠ '"' := ne_of_blank isBlank (by decide)
  have notSingle : c ≠ '\'' := ne_of_blank isBlank (by decide)
  simp [opened, notSlash, notDouble, notSingle]

/-- A blank character at the end of a line makes no difference to the next line. -/
theorem next_blank {c : Char} (isBlank : Text.blank.contains c = true) (notBreak : c ≠ '\n')
    (mode : Mode) : (mode.next c).next '\n' = mode.next '\n' := by
  have notSlash : c ≠ '/' := ne_of_blank isBlank (by decide)
  have notStar : c ≠ '*' := ne_of_blank isBlank (by decide)
  have notBackslash : c ≠ '\\' := ne_of_blank isBlank (by decide)
  cases mode with
  | plain => simp [next, opened_blank isBlank]
  | slash =>
      have isPlain : Mode.slash.next c = .plain := by
        simp [next, opened_blank isBlank, notSlash, notStar]
      rw [isPlain]
      rfl
  | lineComment => simp [next, notBreak]
  | blockComment => simp [next, notStar]
  | star => simp [next, notSlash, notStar]
  | quoted mark =>
      by_cases isMark : c = mark
      · simp [next, isMark, opened]
      · simp [next, isMark, notBreak, notBackslash]
  | escaped mark => simp [next, notBreak]

/-- A blank character at the start of a line makes no difference. -/
theorem next_blank_of_isCalm {mode : Mode} (isCalm : mode.IsCalm) {c : Char}
    (isBlank : Text.blank.contains c = true) : mode.next c = mode := by
  have notStar : c ≠ '*' := ne_of_blank isBlank (by decide)
  cases mode with
  | plain => exact opened_blank isBlank
  | blockComment => simp [next, notStar]
  | slash | lineComment | star | quoted | escaped => simp [IsCalm, next, opened] at isCalm

theorem seen_blank {text : Text} (allBlank : ∀ c ∈ text, Text.blank.contains c = true)
    (mode : Mode) : mode.seen text = [] := by
  induction text generalizing mode with
  | nil => rfl
  | cons c rest inductionHypothesis =>
      have restSeen := inductionHypothesis
        (fun d member => allBlank d (List.mem_cons_of_mem _ member)) (mode.next c)
      rw [seen, marks_cons, mark_blank (allBlank c List.mem_cons_self)]
      exact restSeen

theorem after_blank {mode : Mode} (isCalm : mode.IsCalm) {text : Text}
    (allBlank : ∀ c ∈ text, Text.blank.contains c = true) : mode.after text = mode := by
  induction text with
  | nil => rfl
  | cons c rest inductionHypothesis =>
      rw [after_cons, next_blank_of_isCalm isCalm (allBlank c List.mem_cons_self)]
      exact inductionHypothesis fun d member => allBlank d (List.mem_cons_of_mem _ member)

def afterLine (mode : Mode) (line : Text) : Mode := (mode.after line).next '\n'

def afterLines (mode : Mode) (lines : List Text) : Mode := lines.foldl afterLine mode

def seenLines : Mode → List Text → List TokenKind
  | _, [] => []
  | mode, line :: rest => mode.seen line ++ seenLines (mode.afterLine line) rest

theorem afterLine_blank {back : Text} (allBlank : ∀ c ∈ back, Text.blank.contains c = true)
    (unbroken : '\n' ∉ back) (mode : Mode) (line : Text) :
    mode.afterLine (line ++ back) = mode.afterLine line := by
  rw [afterLine, after_append, afterLine]
  generalize mode.after line = behind
  induction back generalizing behind with
  | nil => rfl
  | cons c rest inductionHypothesis =>
      simp only [List.mem_cons, not_or] at unbroken
      rw [after_cons, inductionHypothesis
        (fun d member => allBlank d (List.mem_cons_of_mem _ member)) unbroken.2]
      exact next_blank (allBlank c List.mem_cons_self) (Ne.symm unbroken.1) behind

theorem isCalm_afterLine (mode : Mode) (line : Text) : (mode.afterLine line).IsCalm :=
  isCalm_next _

theorem isCalm_afterLines {mode : Mode} (isCalm : mode.IsCalm) (lines : List Text) :
    (mode.afterLines lines).IsCalm := by
  induction lines generalizing mode with
  | nil => exact isCalm
  | cons line rest inductionHypothesis => exact inductionHypothesis (isCalm_afterLine mode line)

theorem afterLines_append (mode : Mode) (first second : List Text) :
    mode.afterLines (first ++ second) = (mode.afterLines first).afterLines second :=
  List.foldl_append

theorem seenLines_append (mode : Mode) (first second : List Text) :
    mode.seenLines (first ++ second) =
      mode.seenLines first ++ (mode.afterLines first).seenLines second := by
  induction first generalizing mode with
  | nil => rfl
  | cons line rest inductionHypothesis =>
      rw [List.cons_append, seenLines, inductionHypothesis, seenLines, List.append_assoc]
      rfl

theorem seen_lineFeed (mode : Mode) (line : Text) :
    mode.seen (line ++ ['\n']) = mode.seen line := by
  have nothing : (mode.after line).seen ['\n'] = [] := by
    refine seen_blank ?_ _
    intro c member
    rw [List.mem_singleton.mp member]
    decide
  rw [seen_append, nothing, List.append_nil]

/-- A text and a line feed behind it are seen as the lines of the text are. -/
theorem after_ofLines {lines : List Text} (nonempty : lines ≠ []) (mode : Mode) :
    mode.after (Text.ofLines lines ++ ['\n']) = mode.afterLines lines ∧
      mode.seen (Text.ofLines lines ++ ['\n']) = mode.seenLines lines := by
  induction lines generalizing mode with
  | nil => exact absurd rfl nonempty
  | cons line rest inductionHypothesis =>
      cases rest with
      | nil =>
          rw [Text.ofLines_singleton, seen_lineFeed, after_append]
          exact ⟨rfl, (List.append_nil _).symm⟩
      | cons second others =>
          have split : Text.ofLines (line :: second :: others) ++ ['\n'] =
              (line ++ ['\n']) ++ (Text.ofLines (second :: others) ++ ['\n']) := by
            rw [Text.ofLines_cons (List.cons_ne_nil second others)]
            simp
          obtain ⟨restAfter, restSeen⟩ :=
            inductionHypothesis (List.cons_ne_nil second others) (mode.afterLine line)
          have lineAfter : mode.after (line ++ ['\n']) = mode.afterLine line := after_append _ _ _
          rw [split, after_append, seen_append, seen_lineFeed, lineAfter, restAfter, restSeen]
          exact ⟨rfl, rfl⟩

/-- Lines that a scan sees alike. -/
structure Alike (first second : List Text) : Prop where
  seen : ∀ mode : Mode, mode.IsCalm → mode.seenLines first = mode.seenLines second
  after : ∀ mode : Mode, mode.IsCalm → mode.afterLines first = mode.afterLines second

namespace Alike

theorem refl (lines : List Text) : Alike lines lines := ⟨fun _ _ => rfl, fun _ _ => rfl⟩

theorem symm {first second : List Text} (alike : Alike first second) : Alike second first :=
  ⟨fun mode isCalm => (alike.seen mode isCalm).symm,
    fun mode isCalm => (alike.after mode isCalm).symm⟩

theorem trans {first second third : List Text} (alike : Alike first second)
    (alikeNext : Alike second third) : Alike first third :=
  ⟨fun mode isCalm => (alike.seen mode isCalm).trans (alikeNext.seen mode isCalm),
    fun mode isCalm => (alike.after mode isCalm).trans (alikeNext.after mode isCalm)⟩

theorem append {first second front back : List Text} (alike : Alike first second)
    (alikeRest : Alike front back) : Alike (first ++ front) (second ++ back) := by
  constructor
  · intro mode isCalm
    rw [seenLines_append, seenLines_append, alike.seen mode isCalm, alike.after mode isCalm,
      alikeRest.seen _ (isCalm_afterLines isCalm second)]
  · intro mode isCalm
    rw [afterLines_append, afterLines_append, alike.after mode isCalm,
      alikeRest.after _ (isCalm_afterLines isCalm second)]

theorem of_line {first second : Text}
    (seen : ∀ mode : Mode, mode.IsCalm → mode.seen first = mode.seen second)
    (after : ∀ mode : Mode, mode.IsCalm → mode.afterLine first = mode.afterLine second) :
    Alike [first] [second] := by
  constructor
  · intro mode isCalm
    rw [seenLines, seenLines, seen mode isCalm]
    rfl
  · exact after

theorem blank_append {front : Text} (allBlank : ∀ c ∈ front, Text.blank.contains c = true)
    (line : Text) : Alike [front ++ line] [line] := by
  refine of_line ?_ ?_
  · intro mode isCalm
    rw [seen_append, seen_blank allBlank, after_blank isCalm allBlank, List.nil_append]
  · intro mode isCalm
    rw [afterLine, after_append, after_blank isCalm allBlank, afterLine]

theorem append_blank {back : Text} (allBlank : ∀ c ∈ back, Text.blank.contains c = true)
    (unbroken : '\n' ∉ back) (line : Text) : Alike [line ++ back] [line] := by
  refine of_line ?_ ?_
  · intro mode _
    rw [seen_append, seen_blank allBlank, List.append_nil]
  · intro mode _
    exact afterLine_blank allBlank unbroken mode line

theorem empty : Alike [[]] [] := by
  constructor
  · intro mode _
    rfl
  · intro mode isCalm
    exact isCalm

/-- Edits of blank space are not seen. -/
theorem of_edited {first second : List Text} (edited : Text.Edited first second) :
    Alike first second := by
  induction edited with
  | refl lines => exact refl lines
  | trans _ _ alike alikeNext => exact alike.trans alikeNext
  | append _ _ alike alikeRest => exact alike.append alikeRest
  | dropStart line isBlank => exact blank_append isBlank line
  | dropEnd line isBlank unbroken => exact append_blank isBlank unbroken line
  | dropEmpty => exact empty
  | putStart line spaces =>
      exact (blank_append (fun c member => Text.blank_of_isSpace (spaces c member)) line).symm
  | putEmpty => exact empty.symm

end Alike

end Mode

namespace Block

open Mode

/-- Lines that can stand between the braces of a block. -/
structure Enclosed (lines : List Text) : Prop where
  balanced : Balanced (Mode.plain.seenLines lines)
  visible : Mode.plain.afterLines lines = .plain

theorem Enclosed.of_alike {first second : List Text} (alike : Alike first second)
    (enclosed : Enclosed first) : Enclosed second := by
  constructor
  · rw [← alike.seen _ isCalm_plain]
    exact enclosed.balanced
  · rw [← alike.after _ isCalm_plain]
    exact enclosed.visible

theorem Enclosed.of_edited {first second : List Text} (edited : Text.Edited first second) :
    Enclosed first ↔ Enclosed second := by
  have alike := Alike.of_edited edited
  exact ⟨.of_alike alike, .of_alike alike.symm⟩

theorem enclosed_lines {body : Text} (enclosed : body.IsEnclosed) :
    Enclosed (Text.lines body) := by
  obtain ⟨bodyAfter, bodySeen⟩ := after_ofLines (Text.lines_ne_nil body) .plain
  rw [Text.ofLines_lines] at bodyAfter bodySeen
  rw [seen_lineFeed] at bodySeen
  constructor
  · rw [← bodySeen]
    exact enclosed.balanced
  · rw [← bodyAfter, after_append]
    exact eq_plain_of_sees enclosed.visible

/-- What is kept of a body can stand where the body stood. -/
theorem enclosed_normalize {body : Text} (enclosed : body.IsEnclosed) :
    Enclosed (normalize body) :=
  (Enclosed.of_edited (edited_normalize body)).mp (enclosed_lines enclosed)

/-- Lines can stand between braces at any level. -/
theorem isEnclosed_laidOut {lines : List Text} (enclosed : Enclosed lines) (nonempty : lines ≠ [])
    (level : Nat) {closing : Text} (allBlank : ∀ c ∈ closing, Text.blank.contains c = true) :
    (laidOut level closing lines).IsEnclosed := by
  have edited : Text.Edited lines ([] :: lines.map (Text.shiftLine level)) :=
    Text.Edited.putEmpty.append (edited_shiftLines level lines)
  have shifted : lines.map (Text.shiftLine level) ≠ [] := by simpa using nonempty
  obtain ⟨bodyAfter, bodySeen⟩ :=
    after_ofLines (List.cons_ne_nil [] (lines.map (Text.shiftLine level))) .plain
  have cut : laidOut level closing lines =
      Text.ofLines ([] :: lines.map (Text.shiftLine level)) ++ ['\n'] ++ closing := by
    rw [laidOut, Text.ofLines_cons shifted]
    simp
  obtain ⟨balanced, visible⟩ := (Enclosed.of_edited edited).mp enclosed
  constructor
  · rw [cut, seen_append, bodySeen, seen_blank allBlank, List.append_nil]
    exact balanced
  · rw [cut, after_append, bodyAfter, visible, after_blank isCalm_plain allBlank]
    rfl

end Block

end YulTree

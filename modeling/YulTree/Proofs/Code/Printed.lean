import Mathlib.Logic.Function.Iterate
import YulTree.Code.Payload
import YulTree.Proofs.Code.Enclosed

/-!
# Printed blocks

What stands between the braces of a block that is printed at a level.  It is kept as the lines of
the block, so a printed block stays what it is however far it is indented (`lines_of_indented`).
-/

namespace YulTree

namespace Text

/-- A text that is indented several times stands as many levels deeper. -/
theorem iterate_indent (depth : Nat) (text : Text) : indent^[depth] text = shift depth text := by
  induction depth generalizing text with
  | zero => exact (shift_zero text).symm
  | succ depth inductionHypothesis =>
      rw [Function.iterate_succ_apply, inductionHypothesis, shift_indent]

/-- What stands behind the first occurrence of a mark. -/
def behind? (mark : Char) (text : Text) : Option Text :=
  match text.dropWhile (· != mark) with
  | [] => none
  | _ :: rest => some rest

/-- What stands between the first opening brace of a text and its last closing brace. -/
def insideBraces? (text : Text) : Option Text := do
  let rest ← behind? '\x7b' text
  let part ← behind? '\x7d' rest.reverse
  return part.reverse

theorem behind?_append {mark : Char} {front : Text} (unmarked : mark ∉ front) (rest : Text) :
    behind? mark (front ++ mark :: rest) = some rest := by
  have skipped : ∀ c ∈ front, (c != mark) = true := by
    intro c member
    have different : c ≠ mark := by
      intro same
      subst same
      exact unmarked member
    simpa using different
  have cut : (front ++ mark :: rest).dropWhile (· != mark) = mark :: rest := by
    rw [List.dropWhile_append_of_pos skipped, List.dropWhile_cons_of_neg (by simp)]
  rw [behind?, cut]

theorem insideBraces?_append {front back : Text} (notBefore : '\x7b' ∉ front)
    (notBehind : '\x7d' ∉ back) (part : Text) :
    insideBraces? (front ++ '\x7b' :: (part ++ '\x7d' :: back)) = some part := by
  have fromBehind : (part ++ '\x7d' :: back).reverse = back.reverse ++ '\x7d' :: part.reverse := by
    simp
  have notBefore' : '\x7d' ∉ back.reverse := by simpa using notBehind
  rw [insideBraces?, behind?_append notBefore, Option.bind_eq_bind, Option.bind_some, fromBehind,
    behind?_append notBefore', Option.bind_some, List.reverse_reverse]
  rfl

end Text

theorem Payload.print_of_block {block : Block} (payload : Payload)
    (content : payload.content = .block block) (context : Context) :
    Code.print context payload = block.render := by
  change Payload.print context payload = block.render
  rw [Payload.print, content]

namespace Block

/-- A block that is read back from where it is printed. -/
structure Printable (block : Block) : Prop where
  normal : IsNormal block.lines
  enclosed : Enclosed block.lines

theorem printable_ofBody {body : Text} (enclosed : body.IsEnclosed) :
    Printable (ofBody body) :=
  ⟨isNormal_normalize body, enclosed_normalize enclosed⟩

/-- What stands between the braces of a block that is printed at a level. -/
def bodyAt (level : Nat) (block : Block) : Text :=
  if block.isEmpty then " " else laidOut (level + 1) (Text.margin level) block.lines

theorem lines_ne_nil {block : Block} (nonempty : ¬ block.isEmpty = true) : block.lines ≠ [] := by
  intro none
  exact nonempty (by rw [isEmpty, none]; rfl)

/-- A printed block, behind the beginning of a line. -/
theorem shift_render {block : Block} (normal : IsNormal block.lines) {front : Text}
    (unbroken : '\n' ∉ front) (level : Nat) :
    Text.shift level (front ++ block.render) =
      Text.margin level ++ (front ++ '\x7b' :: (block.bodyAt level ++ ['\x7d'])) := by
  unfold render bodyAt
  split
  · refine Text.shift_line ?_ ?_ level
    · exact List.append_ne_nil_of_right_ne_nil _ (by decide)
    · have restUnbroken : '\n' ∉ ("\x7b \x7d" : Text) := by decide
      simp only [List.mem_append, not_or]
      exact ⟨unbroken, restUnbroken⟩
  · next nonempty =>
      have cut : front ++ ("\x7b\n" ++ Text.indent block.text ++ "\n\x7d") =
          (front ++ ['\x7b']) ++ '\n' :: (Text.indent block.text ++ '\n' :: ['\x7d']) := by
        simp
      have firstUnbroken : '\n' ∉ front ++ ['\x7b'] := by
        simp only [List.mem_append, List.mem_singleton, not_or]
        exact ⟨unbroken, by decide⟩
      have textLines : Text.lines block.text = block.lines :=
        Text.lines_ofLines (lines_ne_nil nonempty) normal.unbroken
      have shiftedText : Text.shift (level + 1) block.text =
          Text.ofLines (block.lines.map (Text.shiftLine (level + 1))) := by
        rw [Text.shift, textLines]
      have closing : Text.shift level ['\x7d'] = Text.margin level ++ ['\x7d'] :=
        Text.shift_line (by decide) (by decide) level
      rw [cut, Text.shift_append, Text.shift_append, Text.shift_indent, shiftedText, closing,
        Text.shift_line (by simp) firstUnbroken, laidOut]
      simp

/-- A printed block is read back as what it was. -/
theorem normalize_bodyAt {block : Block} (normal : IsNormal block.lines) (level : Nat) :
    normalize (block.bodyAt level) = block.lines := by
  unfold bodyAt
  split
  · next empty =>
      rw [List.isEmpty_iff.mp empty]
      decide
  · next nonempty =>
      exact normalize_laidOut normal (lines_ne_nil nonempty) (level + 1) level

theorem isEnclosed_bodyAt {block : Block} (printable : block.Printable) (level : Nat) :
    (block.bodyAt level).IsEnclosed := by
  unfold bodyAt
  split
  · exact ⟨.nil, rfl⟩
  · next nonempty =>
      exact isEnclosed_laidOut printable.enclosed (lines_ne_nil nonempty) (level + 1)
        (fun c => Text.blank_of_mem_margin)

/-- Code that is printed, and indented any number of times, has between its braces what is kept as
the same lines again. -/
theorem lines_of_indented (context : Context) (dialect : Option Dialect) (body : Text)
    (depth : Nat) :
    ∃ part,
      (Text.indent^[depth] (Code.print context (Payload.ofBody dialect body))).insideBraces? =
        some part ∧
      (ofBody part).lines = (ofBody body).lines := by
  have normal : IsNormal (ofBody body).lines := isNormal_normalize body
  have printed : Code.print context (Payload.ofBody dialect body) = (ofBody body).render :=
    (Payload.ofBody dialect body).print_of_block rfl context
  have moved : Text.shift depth (ofBody body).render =
      Text.margin depth ++ '\x7b' :: ((ofBody body).bodyAt depth ++ ['\x7d']) :=
    shift_render normal List.not_mem_nil depth
  have notBefore : '\x7b' ∉ Text.margin depth := by
    intro member
    exact absurd (Text.mem_margin member) (by decide)
  refine ⟨(ofBody body).bodyAt depth, ?_, ?_⟩
  · rw [printed, Text.iterate_indent, moved]
    exact Text.insideBraces?_append notBefore List.not_mem_nil _
  · exact normalize_bodyAt normal depth

end Block

end YulTree

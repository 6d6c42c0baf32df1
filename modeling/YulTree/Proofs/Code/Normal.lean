import YulTree.Code.Block
import YulTree.Proofs.Text.Indent
import YulTree.Proofs.Text.Trim

/-!
# Normal lines

The lines that code bodies are kept as: they end without blank space, the first and the last are
not empty, and some line is not indented.  Normal lines that are written between braces at any
depth are normalized to themselves (`normalize_laidOut`).
-/

namespace YulTree

namespace Text

theorem blank_of_mem_margin {level : Nat} {c : Char} (member : c ∈ margin level) :
    blank.contains c = true := by
  obtain rfl := mem_margin member
  decide

theorem trimEnd_shiftLine {line : Text} (trimmed : line.trimEnd = line) (level : Nat) :
    (shiftLine level line).trimEnd = shiftLine level line := by
  by_cases empty : line = []
  · subst empty
    rfl
  · rw [shiftLine_of_ne_nil empty]
    exact trimEnd_append trimmed empty

end Text

namespace Block

theorem least_le_of_mem {n : Nat} {numbers : List Nat} (member : n ∈ numbers) :
    least numbers ≤ n := by
  induction numbers with
  | nil => exact absurd member List.not_mem_nil
  | cons m rest inductionHypothesis =>
      cases rest with
      | nil =>
          obtain rfl := List.mem_singleton.mp member
          exact Nat.le_refl _
      | cons k others =>
          rcases List.mem_cons.mp member with rfl | later
          · exact Nat.min_le_left _ _
          · exact Nat.le_trans (Nat.min_le_right _ _) (inductionHypothesis later)

theorem least_mem {numbers : List Nat} (nonempty : numbers ≠ []) : least numbers ∈ numbers := by
  induction numbers with
  | nil => exact absurd rfl nonempty
  | cons m rest inductionHypothesis =>
      cases rest with
      | nil => exact List.mem_singleton.mpr rfl
      | cons k others =>
          have leastEq : least (m :: k :: others) = min m (least (k :: others)) := rfl
          rw [leastEq]
          rcases Nat.le_total m (least (k :: others)) with isLeast | notLeast
          · rw [Nat.min_eq_left isLeast]
            exact List.mem_cons_self
          · rw [Nat.min_eq_right notLeast]
            exact List.mem_cons_of_mem _ (inductionHypothesis (List.cons_ne_nil k others))

/-- No line that is not empty is indented less than all have in common. -/
theorem commonIndent_le {lines : List Text} {line : Text} (member : line ∈ lines)
    (nonempty : line ≠ []) : commonIndent lines ≤ leadingBlanks line :=
  least_le_of_mem
    (List.mem_map_of_mem (List.mem_filter.mpr ⟨member, by simp [nonempty]⟩))

/-- Some line is indented as far as all are, and no further. -/
theorem exists_commonIndent {lines : List Text} {line : Text} (member : line ∈ lines)
    (nonempty : line ≠ []) :
    ∃ flush ∈ lines, flush ≠ [] ∧ leadingBlanks flush = commonIndent lines := by
  have some : line ∈ lines.filter fun line => !line.isEmpty :=
    List.mem_filter.mpr ⟨member, by simp [nonempty]⟩
  obtain ⟨flush, flushMember, flushEq⟩ :=
    List.mem_map.mp (least_mem (List.ne_nil_of_mem (List.mem_map_of_mem some)))
  obtain ⟨flushLine, flushNonempty⟩ := List.mem_filter.mp flushMember
  exact ⟨flush, flushLine, by simpa using flushNonempty, flushEq⟩

theorem commonIndent_eq {lines : List Text} {line : Text} (member : line ∈ lines)
    (nonempty : line ≠ [])
    (isLeast : ∀ other ∈ lines, other ≠ [] → leadingBlanks line ≤ leadingBlanks other) :
    commonIndent lines = leadingBlanks line := by
  obtain ⟨flush, flushMember, flushNonempty, flushEq⟩ := exists_commonIndent member nonempty
  refine Nat.le_antisymm (commonIndent_le member nonempty) ?_
  rw [← flushEq]
  exact isLeast flush flushMember flushNonempty

theorem leadingBlanks_append {front : Text}
    (allBlank : ∀ c ∈ front, c = ' ' ∨ c = '\t') (line : Text) :
    leadingBlanks (front ++ line) = front.length + leadingBlanks line := by
  have passes : ∀ c ∈ front, (c == ' ' || c == '\t') = true := by
    intro c member
    rcases allBlank c member with rfl | rfl <;> rfl
  rw [leadingBlanks, List.takeWhile_append_of_pos passes, List.length_append]
  rfl

/-- What stands before and behind some of the blanks in front of a line. -/
theorem split_leadingBlanks {line : Text} {count : Nat} (few : count ≤ leadingBlanks line) :
    ∃ front, line = front ++ line.drop count ∧ front.length = count ∧
      ∀ c ∈ front, c = ' ' ∨ c = '\t' := by
  have isPrefix : line.take count <+: line.takeWhile fun c => c == ' ' || c == '\t' :=
    List.prefix_of_prefix_length_le (List.take_prefix _ _) (List.takeWhile_prefix _)
      (Nat.le_trans (List.length_take_le _ _) few)
  have long : count ≤ line.length :=
    Nat.le_trans few (List.takeWhile_prefix _).length_le
  refine ⟨line.take count, (List.take_append_drop count line).symm, ?_, ?_⟩
  · exact List.length_take_of_le long
  · intro c member
    have passes := List.all_eq_true.mp List.all_takeWhile c (isPrefix.subset member)
    simpa using passes

theorem leadingBlanks_drop {line : Text} {count : Nat} (few : count ≤ leadingBlanks line) :
    leadingBlanks (line.drop count) = leadingBlanks line - count := by
  obtain ⟨front, split, frontLength, allBlank⟩ := split_leadingBlanks few
  have whole := leadingBlanks_append allBlank (line.drop count)
  rw [← split] at whole
  omega

/-- A line that does not end with blank space is not all blanks. -/
theorem drop_ne_nil {line : Text} {count : Nat} (trimmed : line.trimEnd = line)
    (nonempty : line ≠ []) (few : count ≤ leadingBlanks line) : line.drop count ≠ [] := by
  intro gone
  obtain ⟨front, split, -, allBlank⟩ := split_leadingBlanks few
  rw [gone, List.append_nil] at split
  refine nonempty (trimmed.symm.trans (Text.trimEnd_blank ?_))
  intro c member
  rw [split] at member
  rcases allBlank c member with rfl | rfl <;> decide

/-- What a code body is kept as. -/
structure IsNormal (lines : List Text) : Prop where
  unbroken : ∀ line ∈ lines, '\n' ∉ line
  trimmed : ∀ line ∈ lines, line.trimEnd = line
  starts : lines.head? ≠ some []
  ends : lines.getLast? ≠ some []
  flush : commonIndent lines = 0

/-- Only empty lines are dropped at the two ends. -/
theorem dropOuterBlank_split (lines : List Text) :
    ∃ front back, lines = front ++ (dropOuterBlank lines ++ back) ∧
      (∀ line ∈ front, line = []) ∧ ∀ line ∈ back, line = [] := by
  obtain ⟨back, split, backEmpty⟩ :=
    dropTrailing_split List.isEmpty (lines.dropWhile List.isEmpty)
  refine ⟨lines.takeWhile List.isEmpty, back, ?_, ?_, ?_⟩
  · rw [dropOuterBlank, ← split, List.takeWhile_append_dropWhile]
  · intro line member
    exact List.isEmpty_iff.mp (List.all_eq_true.mp List.all_takeWhile line member)
  · intro line member
    exact List.isEmpty_iff.mp (backEmpty line member)

theorem filter_empty {lines : List Text} (allEmpty : ∀ line ∈ lines, line = []) :
    lines.filter (fun line => !line.isEmpty) = [] := by
  refine List.filter_eq_nil_iff.mpr fun line member => ?_
  rw [allEmpty line member]
  decide

theorem commonIndent_dropOuterBlank (lines : List Text) :
    commonIndent (dropOuterBlank lines) = commonIndent lines := by
  obtain ⟨front, back, split, frontEmpty, backEmpty⟩ := dropOuterBlank_split lines
  have sameFilter : lines.filter (fun line => !line.isEmpty) =
      (dropOuterBlank lines).filter fun line => !line.isEmpty := by
    conv =>
      lhs
      rw [split]
    rw [List.filter_append, List.filter_append, filter_empty frontEmpty,
      filter_empty backEmpty, List.nil_append, List.append_nil]
  rw [commonIndent, commonIndent, sameFilter]

theorem head?_dropOuterBlank (lines : List Text) : (dropOuterBlank lines).head? ≠ some [] := by
  intro head
  obtain ⟨back, split, -⟩ :=
    dropTrailing_split List.isEmpty (lines.dropWhile List.isEmpty)
  obtain ⟨rest, cut⟩ := List.head?_eq_some_iff.mp head
  have failing := List.head?_dropWhile_not List.isEmpty lines
  rw [split, ← dropOuterBlank, cut] at failing
  exact absurd failing (by simp)

theorem getLast?_dropOuterBlank (lines : List Text) :
    (dropOuterBlank lines).getLast? ≠ some [] := by
  intro last
  obtain ⟨front, cut⟩ := List.getLast?_eq_some_iff.mp last
  exact absurd (dropTrailing_last cut) (by decide)

/-- Dropping empty lines at the ends makes flush lines normal. -/
theorem isNormal_dropOuterBlank {lines : List Text} (unbroken : ∀ line ∈ lines, '\n' ∉ line)
    (trimmed : ∀ line ∈ lines, line.trimEnd = line) (flush : commonIndent lines = 0) :
    IsNormal (dropOuterBlank lines) := by
  obtain ⟨front, back, split, -, -⟩ := dropOuterBlank_split lines
  have kept : ∀ line ∈ dropOuterBlank lines, line ∈ lines := by
    intro line member
    rw [split]
    exact List.mem_append_right _ (List.mem_append_left _ member)
  exact
    { unbroken := fun line member => unbroken line (kept line member)
      trimmed := fun line member => trimmed line (kept line member)
      starts := head?_dropOuterBlank lines
      ends := getLast?_dropOuterBlank lines
      flush := (commonIndent_dropOuterBlank lines).trans flush }

def dedent (lines : List Text) : List Text :=
  lines.map fun line => line.drop (commonIndent lines)

theorem commonIndent_dedent {lines : List Text}
    (trimmed : ∀ line ∈ lines, line.trimEnd = line) : commonIndent (dedent lines) = 0 := by
  by_cases allEmpty : ∀ line ∈ dedent lines, line = []
  · rw [commonIndent, filter_empty allEmpty]
    rfl
  · simp only [Classical.not_forall] at allEmpty
    obtain ⟨dropped, member, nonempty⟩ := allEmpty
    obtain ⟨line, lineMember, rfl⟩ := List.mem_map.mp member
    have lineNonempty : line ≠ [] := by
      rintro rfl
      exact nonempty List.drop_nil
    obtain ⟨flush, flushMember, flushNonempty, flushEq⟩ :=
      exists_commonIndent lineMember lineNonempty
    have stays : flush.drop (commonIndent lines) ≠ [] :=
      drop_ne_nil (trimmed flush flushMember) flushNonempty (Nat.le_of_eq flushEq.symm)
    have lowest := commonIndent_le (List.mem_map_of_mem flushMember) stays
    rw [leadingBlanks_drop (Nat.le_of_eq flushEq.symm), flushEq, Nat.sub_self] at lowest
    exact Nat.le_zero.mp lowest

theorem leadingBlanks_trimStart (line : Text) : leadingBlanks line.trimStart = 0 := by
  cases trimmed : line.trimStart with
  | nil => rfl
  | cons c rest =>
      have headNotBlank := List.head?_dropWhile_not Text.blank.contains line
      rw [← Text.trimStart, trimmed] at headNotBlank
      have notBlank : Text.blank.contains c = false := headNotBlank
      have isOther : (c == ' ' || c == '\t') = false := by
        refine Bool.eq_false_iff.mpr fun isSpace => ?_
        simp only [Bool.or_eq_true, beq_iff_eq] at isSpace
        rcases isSpace with rfl | rfl
        · exact absurd notBlank (by decide)
        · exact absurd notBlank (by decide)
      simp [leadingBlanks, isOther]

theorem normalize_eq (body : Text) :
    ∃ head rest, (Text.lines body).map Text.trimEnd = head :: rest ∧
      normalize body =
        dropOuterBlank
          ((if head.trimStart.isEmpty then [] else [head.trimStart]) ++ dedent rest) := by
  cases cut : (Text.lines body).map Text.trimEnd with
  | nil => exact absurd (List.map_eq_nil_iff.mp cut) (Text.lines_ne_nil body)
  | cons head rest =>
      refine ⟨head, rest, rfl, ?_⟩
      rw [normalize, cut]
      rfl

theorem trimEnd_dedent {lines : List Text} (trimmed : ∀ line ∈ lines, line.trimEnd = line) :
    ∀ line ∈ dedent lines, line.trimEnd = line := by
  intro dropped member
  obtain ⟨line, lineMember, rfl⟩ := List.mem_map.mp member
  exact Text.trimEnd_of_suffix (List.drop_suffix _ line) (trimmed line lineMember)

/-- Code bodies are kept as normal lines. -/
theorem isNormal_normalize (body : Text) : IsNormal (normalize body) := by
  obtain ⟨head, rest, cut, normalized⟩ := normalize_eq body
  have trimmed : ∀ line ∈ head :: rest, line.trimEnd = line := by
    intro line member
    rw [← cut] at member
    obtain ⟨original, -, rfl⟩ := List.mem_map.mp member
    exact dropTrailing_dropTrailing original
  have unbroken : ∀ line ∈ head :: rest, '\n' ∉ line := by
    intro line member
    rw [← cut] at member
    obtain ⟨original, originalMember, rfl⟩ := List.mem_map.mp member
    obtain ⟨dropped, split, -⟩ := dropTrailing_split Text.blank.contains original
    have originalUnbroken := Text.unbroken_of_mem_lines originalMember
    rw [split, List.mem_append, not_or] at originalUnbroken
    exact originalUnbroken.1
  have restTrimmed : ∀ line ∈ rest, line.trimEnd = line :=
    fun line member => trimmed line (List.mem_cons_of_mem _ member)
  have restUnbroken : ∀ line ∈ dedent rest, '\n' ∉ line := by
    intro dropped member
    obtain ⟨line, lineMember, rfl⟩ := List.mem_map.mp member
    intro broken
    exact unbroken line (List.mem_cons_of_mem _ lineMember) (List.mem_of_mem_drop broken)
  rw [normalized]
  split
  · rw [List.nil_append]
    exact isNormal_dropOuterBlank restUnbroken (trimEnd_dedent restTrimmed)
      (commonIndent_dedent restTrimmed)
  · next nonempty =>
      have firstNonempty : head.trimStart ≠ [] := fun gone => nonempty (List.isEmpty_iff.mpr gone)
      have headSuffix : head.trimStart <:+ head := List.dropWhile_suffix _
      refine isNormal_dropOuterBlank ?_ ?_ ?_
      · rintro line (_ | ⟨_, member⟩)
        · exact fun broken => unbroken head List.mem_cons_self (headSuffix.subset broken)
        · exact restUnbroken line member
      · rintro line (_ | ⟨_, member⟩)
        · exact Text.trimEnd_of_suffix headSuffix (trimmed head List.mem_cons_self)
        · exact trimEnd_dedent restTrimmed line member
      · have lowest : commonIndent ([head.trimStart] ++ dedent rest) ≤
            leadingBlanks head.trimStart := commonIndent_le List.mem_cons_self firstNonempty
        rw [leadingBlanks_trimStart] at lowest
        exact Nat.le_zero.mp lowest

/-! ## Lines between braces -/

theorem leadingBlanks_shiftLine {line : Text} (nonempty : line ≠ []) (level : Nat) :
    leadingBlanks (Text.shiftLine level line) =
      (Text.margin level).length + leadingBlanks line := by
  rw [Text.shiftLine_of_ne_nil nonempty]
  exact leadingBlanks_append (fun c member => .inl (Text.mem_margin member)) line

theorem drop_shiftLine (level : Nat) (line : Text) :
    (Text.shiftLine level line).drop (Text.margin level).length = line := by
  by_cases empty : line = []
  · rw [empty, Text.shiftLine_nil, List.drop_nil]
  · rw [Text.shiftLine_of_ne_nil empty, List.drop_left]

/-- Lines at a level have the blank space of that level in common. -/
theorem commonIndent_shiftLine {lines : List Text} {line : Text} (flush : commonIndent lines = 0)
    (member : line ∈ lines) (nonempty : line ≠ []) (level : Nat) :
    commonIndent (lines.map (Text.shiftLine level) ++ [[]]) = (Text.margin level).length := by
  obtain ⟨lowest, lowestMember, lowestNonempty, lowestEq⟩ :=
    exists_commonIndent member nonempty
  have shiftedNonempty : Text.shiftLine level lowest ≠ [] := by
    rw [Text.shiftLine_of_ne_nil lowestNonempty]
    exact List.append_ne_nil_of_right_ne_nil _ lowestNonempty
  have lowestIndent :
      leadingBlanks (Text.shiftLine level lowest) = (Text.margin level).length := by
    rw [leadingBlanks_shiftLine lowestNonempty, lowestEq, flush, Nat.add_zero]
  rw [← lowestIndent]
  refine commonIndent_eq (List.mem_append_left _ (List.mem_map_of_mem lowestMember))
    shiftedNonempty ?_
  intro other otherMember otherNonempty
  rcases List.mem_append.mp otherMember with shifted | isEmpty
  · obtain ⟨original, -, rfl⟩ := List.mem_map.mp shifted
    have originalNonempty : original ≠ [] := by
      rintro rfl
      exact otherNonempty rfl
    rw [lowestIndent, leadingBlanks_shiftLine originalNonempty]
    exact Nat.le_add_right _ _
  · exact absurd (List.mem_singleton.mp isEmpty) otherNonempty

/-- The body of a block whose lines stand at a level, each on a line of its own. -/
def laidOut (level : Nat) (closing : Text) (lines : List Text) : Text :=
  '\n' :: (Text.ofLines (lines.map (Text.shiftLine level)) ++ '\n' :: closing)

theorem lines_laidOut {lines : List Text} (unbroken : ∀ line ∈ lines, '\n' ∉ line)
    (nonempty : lines ≠ []) {closing : Text} (closingUnbroken : '\n' ∉ closing) (level : Nat) :
    Text.lines (laidOut level closing lines) =
      [] :: (lines.map (Text.shiftLine level) ++ [closing]) := by
  have shifted : Text.lines (Text.ofLines (lines.map (Text.shiftLine level))) =
      lines.map (Text.shiftLine level) := by
    refine Text.lines_ofLines (by simpa using nonempty) ?_
    intro line member
    obtain ⟨original, originalMember, rfl⟩ := List.mem_map.mp member
    exact Text.shiftLine_unbroken (unbroken original originalMember) level
  rw [laidOut, ← List.nil_append ('\n' :: _), Text.lines_append, Text.lines_append, shifted,
    Text.lines_of_unbroken closingUnbroken]
  rfl

/-- Normal lines are read back from between braces, at whatever level they stand there. -/
theorem normalize_laidOut {lines : List Text} (isNormal : IsNormal lines) (nonempty : lines ≠ [])
    (level outer : Nat) : normalize (laidOut level (Text.margin outer) lines) = lines := by
  obtain ⟨first, rest, rfl⟩ := List.exists_cons_of_ne_nil nonempty
  have firstNonempty : first ≠ [] := by
    rintro rfl
    exact isNormal.starts rfl
  have closingUnbroken : '\n' ∉ Text.margin outer :=
    fun member => absurd (Text.mem_margin member) (by decide)
  have trimmed : ((first :: rest).map (Text.shiftLine level)).map Text.trimEnd =
      (first :: rest).map (Text.shiftLine level) := by
    rw [List.map_map]
    refine List.map_congr_left fun line member => ?_
    exact Text.trimEnd_shiftLine (isNormal.trimmed line member) level
  have undone : dedent ((first :: rest).map (Text.shiftLine level) ++ [[]]) =
      first :: rest ++ [[]] := by
    have each : (fun line : Text => line.drop (Text.margin level).length) ∘
        Text.shiftLine level = id := funext (drop_shiftLine level)
    rw [dedent, commonIndent_shiftLine isNormal.flush List.mem_cons_self firstNonempty,
      List.map_append, List.map_map, each, List.map_id, List.map_singleton, List.drop_nil]
  obtain ⟨head, others, cut, normalized⟩ :=
    normalize_eq (laidOut level (Text.margin outer) (first :: rest))
  rw [lines_laidOut isNormal.unbroken nonempty closingUnbroken, List.map_cons, List.map_append,
    trimmed, List.map_singleton, Text.trimEnd_blank fun c => Text.blank_of_mem_margin] at cut
  obtain ⟨rfl, rfl⟩ := List.cons.inj cut
  have startsAtFirst : (first :: rest ++ [[]]).dropWhile List.isEmpty = first :: rest ++ [[]] :=
    List.dropWhile_cons_of_neg (by simpa using firstNonempty)
  rw [normalized, undone, dropOuterBlank]
  refine (congrArg (dropTrailing List.isEmpty) startsAtFirst).trans ?_
  rcases List.eq_nil_or_concat (first :: rest) with none | ⟨front, last, whole⟩
  · exact absurd none nonempty
  · rw [List.concat_eq_append] at whole
    have lastNonempty : last ≠ [] := by
      rintro rfl
      exact isNormal.ends (List.getLast?_eq_some_iff.mpr ⟨front, whole⟩)
    rw [whole, List.append_assoc]
    refine dropTrailing_append_of_last (by simpa using lastNonempty) front [[]] ?_
    intro line member
    rw [List.mem_singleton.mp member]
    rfl

end Block

end YulTree

import YulTree.Proofs.Code.Normal

/-!
# Layout of code bodies

What a body loses when it is kept as a code block: blank lines at its two ends, blank space at the
ends of its lines, and the indentation that its lines have in common (`ofBody_layout`).
-/

namespace YulTree

namespace Text

/-- A text without its blank characters. -/
def inked (text : Text) : Text := text.filter fun c => !blank.contains c

theorem inked_append (first second : Text) :
    (first ++ second).inked = first.inked ++ second.inked :=
  List.filter_append first second

theorem inked_eq_nil_iff {text : Text} : text.inked = [] ↔ text.IsBlank := by
  simp [inked, IsBlank]

theorem inked_ofLines (lines : List Text) : (ofLines lines).inked = lines.flatMap inked := by
  induction lines with
  | nil => rfl
  | cons line rest inductionHypothesis =>
      cases rest with
      | nil => rw [ofLines_singleton, List.flatMap_singleton]
      | cons second others =>
          have lineFeed : inked ('\n' :: ofLines (second :: others)) =
              (ofLines (second :: others)).inked := List.filter_cons_of_neg (by decide)
          rw [ofLines_cons (List.cons_ne_nil second others), inked_append, lineFeed,
            inductionHypothesis]
          rfl

end Text

namespace Block

/-- How the line at a place of a body is kept: some blank space is gone at its two ends.  Behind
the line of the opening brace what is gone at the start is the common indentation. -/
structure IsKeptAs (indentation place : Nat) (original line : Text) : Prop where
  cut : ∃ leading trailing, original = leading ++ line ++ trailing ∧
    leading.IsBlank ∧ trailing.IsBlank ∧
    (0 < place → line ≠ [] →
      leading.length = indentation ∧ ∀ c ∈ leading, c = ' ' ∨ c = '\t')
  relative : 0 < place → line ≠ [] →
    leadingBlanks original = indentation + leadingBlanks line
  blank : line = [] ↔ original.IsBlank

theorem IsKeptAs.inked {indentation place : Nat} {original line : Text}
    (isKept : IsKeptAs indentation place original line) : original.inked = line.inked := by
  obtain ⟨leading, trailing, rfl, leadingBlank, trailingBlank, -⟩ := isKept.cut
  rw [Text.inked_append, Text.inked_append, Text.inked_eq_nil_iff.mpr leadingBlank,
    Text.inked_eq_nil_iff.mpr trailingBlank, List.nil_append, List.append_nil]

theorem leadingBlanks_cons (c : Char) (rest : Text) :
    leadingBlanks (c :: rest) = if c == ' ' || c == '\t' then leadingBlanks rest + 1 else 0 := by
  rw [leadingBlanks, List.takeWhile_cons]
  split <;> rfl

/-- What stands behind a line does not count as its indentation, unless the line is blank. -/
theorem leadingBlanks_append_left {line : Text} (notBlank : ¬ line.IsBlank) (back : Text) :
    leadingBlanks (line ++ back) = leadingBlanks line := by
  induction line with
  | nil => exact absurd (fun c member => absurd member List.not_mem_nil) notBlank
  | cons c rest inductionHypothesis =>
      rw [List.cons_append, leadingBlanks_cons, leadingBlanks_cons]
      split
      · next isSpace =>
          have isBlank : Text.blank.contains c = true := by
            simp only [Bool.or_eq_true, beq_iff_eq] at isSpace
            rcases isSpace with rfl | rfl <;> decide
          rw [inductionHypothesis fun restBlank =>
            notBlank (List.forall_mem_cons.mpr ⟨isBlank, restBlank⟩)]
      · rfl

theorem leadingBlanks_trimEnd {line : Text} (notBlank : ¬ line.IsBlank) :
    leadingBlanks line.trimEnd = leadingBlanks line := by
  obtain ⟨dropped, split, -⟩ := dropTrailing_split Text.blank.contains line
  have trimmedNotBlank : ¬ line.trimEnd.IsBlank := by
    rw [← Text.trimEnd_eq_nil_iff, Text.trimEnd, Text.trimEnd, dropTrailing_dropTrailing]
    exact fun gone => notBlank (Text.trimEnd_eq_nil_iff.mp gone)
  conv =>
    rhs
    rw [split]
  exact (leadingBlanks_append_left trimmedNotBlank dropped).symm

/-- The line of the opening brace loses blank space at both ends. -/
theorem isKeptAs_opening (indentation : Nat) (line : Text) :
    IsKeptAs indentation 0 line line.trimEnd.trimStart := by
  obtain ⟨dropped, split, allBlank⟩ := dropTrailing_split Text.blank.contains line
  have leadingBlank : Text.IsBlank (line.trimEnd.takeWhile Text.blank.contains) :=
    List.all_eq_true.mp List.all_takeWhile
  have cut : line = line.trimEnd.takeWhile Text.blank.contains ++ line.trimEnd.trimStart ++
      dropped := by
    rw [Text.trimStart, List.takeWhile_append_dropWhile]
    exact split
  refine ⟨⟨_, dropped, cut, leadingBlank, allBlank, ?_⟩, ?_, ?_⟩
  · exact fun later => absurd later (Nat.lt_irrefl 0)
  · exact fun later => absurd later (Nat.lt_irrefl 0)
  · constructor
    · intro gone
      rw [cut, gone, List.append_nil]
      exact Text.IsBlank.append_iff.mpr ⟨leadingBlank, allBlank⟩
    · intro isBlank
      rw [Text.trimEnd_eq_nil_iff.mpr isBlank]
      rfl

/-- A later line loses blank space at its end, and indentation. -/
theorem isKeptAs_later {line : Text} {indentation : Nat}
    (few : ¬ line.IsBlank → indentation ≤ leadingBlanks line) (place : Nat) :
    IsKeptAs indentation (place + 1) line (line.trimEnd.drop indentation) := by
  obtain ⟨dropped, split, allBlank⟩ := dropTrailing_split Text.blank.contains line
  by_cases isBlank : line.IsBlank
  · have gone : line.trimEnd = [] := Text.trimEnd_eq_nil_iff.mpr isBlank
    rw [gone, List.drop_nil]
    refine ⟨⟨[], line, rfl, ?_, isBlank, ?_⟩, ?_, ?_⟩
    · exact fun c member => absurd member List.not_mem_nil
    · exact fun _ nonempty => absurd rfl nonempty
    · exact fun _ nonempty => absurd rfl nonempty
    · exact ⟨fun _ => isBlank, fun _ => rfl⟩
  · have trimmedFew : indentation ≤ leadingBlanks line.trimEnd := by
      rw [leadingBlanks_trimEnd isBlank]
      exact few isBlank
    have nonempty : line.trimEnd ≠ [] := fun gone => isBlank (Text.trimEnd_eq_nil_iff.mp gone)
    have stays : line.trimEnd.drop indentation ≠ [] :=
      drop_ne_nil (dropTrailing_dropTrailing line) nonempty trimmedFew
    obtain ⟨leading, cut, leadingLength, allSpace⟩ := split_leadingBlanks trimmedFew
    have whole : line = leading ++ line.trimEnd.drop indentation ++ dropped := by
      rw [← cut]
      exact split
    refine ⟨⟨leading, dropped, whole, ?_, allBlank, ?_⟩, ?_, ?_⟩
    · intro c member
      rcases allSpace c member with rfl | rfl <;> decide
    · exact fun _ _ => ⟨leadingLength, allSpace⟩
    · intro _ _
      rw [← leadingBlanks_trimEnd isBlank, leadingBlanks_drop trimmedFew]
      omega
    · exact ⟨fun gone => absurd gone stays, fun blank => absurd blank isBlank⟩

/-- Where the lines that are kept stand among the lines of a body, and the indentation that is
taken from those behind the opening brace. -/
structure IsLayout (body : Text) (kept : List Text) (start indentation : Nat) : Prop where
  around : ∀ place line, (Text.lines body)[place]? = some line →
    place < start ∨ start + kept.length ≤ place → line.IsBlank
  within : ∀ place line, kept[place]? = some line → ∃ original,
    (Text.lines body)[start + place]? = some original ∧
      IsKeptAs indentation (start + place) original line
  least : ∀ line ∈ (Text.lines body).tail, ¬ line.IsBlank → indentation ≤ leadingBlanks line
  attained : (∃ line ∈ (Text.lines body).tail, ¬ line.IsBlank) →
    ∃ line ∈ (Text.lines body).tail, ¬ line.IsBlank ∧ leadingBlanks line = indentation

/-- The indentation that the lines behind the opening brace have in common. -/
def bodyIndent (body : Text) : Nat := commonIndent ((Text.lines body).tail.map Text.trimEnd)

theorem bodyIndent_le {body line : Text} (member : line ∈ (Text.lines body).tail)
    (notBlank : ¬ line.IsBlank) : bodyIndent body ≤ leadingBlanks line := by
  rw [← leadingBlanks_trimEnd notBlank]
  exact commonIndent_le (List.mem_map_of_mem member)
    fun gone => notBlank (Text.trimEnd_eq_nil_iff.mp gone)

theorem exists_bodyIndent {body line : Text} (member : line ∈ (Text.lines body).tail)
    (notBlank : ¬ line.IsBlank) :
    ∃ flush ∈ (Text.lines body).tail, ¬ flush.IsBlank ∧ leadingBlanks flush = bodyIndent body := by
  obtain ⟨trimmed, trimmedMember, nonempty, isLeast⟩ :=
    exists_commonIndent (List.mem_map_of_mem member)
      fun gone => notBlank (Text.trimEnd_eq_nil_iff.mp gone)
  obtain ⟨flush, flushMember, rfl⟩ := List.mem_map.mp trimmedMember
  have flushNotBlank : ¬ flush.IsBlank :=
    fun isBlank => nonempty (Text.trimEnd_eq_nil_iff.mpr isBlank)
  rw [leadingBlanks_trimEnd flushNotBlank] at isLeast
  exact ⟨flush, flushMember, flushNotBlank, isLeast⟩

/-- The lines of a body before empty ones are dropped at the two ends. -/
def editedLines (indentation : Nat) : List Text → List Text
  | [] => []
  | opening :: rest =>
      opening.trimEnd.trimStart :: rest.map fun line => line.trimEnd.drop indentation

theorem length_editedLines (indentation : Nat) (lines : List Text) :
    (editedLines indentation lines).length = lines.length := by
  cases lines with
  | nil => rfl
  | cons opening rest => simp [editedLines]

/-- Every line of a body is edited at its place. -/
theorem isKeptAs_editedLines {lines : List Text} {indentation place : Nat} {original : Text}
    (few : ∀ line ∈ lines.tail, ¬ line.IsBlank → indentation ≤ leadingBlanks line)
    (placed : lines[place]? = some original) :
    ∃ line, (editedLines indentation lines)[place]? = some line ∧
      IsKeptAs indentation place original line := by
  cases lines with
  | nil => cases placed
  | cons opening rest =>
      cases place with
      | zero =>
          obtain rfl := Option.some.inj placed
          exact ⟨_, rfl, isKeptAs_opening indentation opening⟩
      | succ place =>
          have placedLater : rest[place]? = some original := placed
          refine ⟨original.trimEnd.drop indentation, ?_,
            isKeptAs_later (few original (List.mem_of_getElem? placedLater)) place⟩
          rw [editedLines, List.getElem?_cons_succ, List.getElem?_map, placedLater]
          rfl

theorem normalize_eq_dropOuterBlank (body : Text) :
    normalize body = dropOuterBlank (editedLines (bodyIndent body) (Text.lines body)) := by
  obtain ⟨opening, rest, cut⟩ := List.exists_cons_of_ne_nil (Text.lines_ne_nil body)
  have later : (rest.map Text.trimEnd).map (fun line => line.drop (bodyIndent body)) =
      rest.map fun line => line.trimEnd.drop (bodyIndent body) := List.map_map
  rw [bodyIndent, cut, List.tail_cons] at later
  rw [bodyIndent, normalize, cut, List.tail_cons, editedLines]
  simp only [List.map_cons, later]
  split
  · next isEmpty =>
      rw [List.isEmpty_iff.mp isEmpty]
      rfl
  · rfl

theorem inked_editedLines {lines : List Text} {indentation : Nat}
    (few : ∀ line ∈ lines.tail, ¬ line.IsBlank → indentation ≤ leadingBlanks line) :
    (editedLines indentation lines).flatMap Text.inked = lines.flatMap Text.inked := by
  cases lines with
  | nil => rfl
  | cons opening rest =>
      have restInked : rest.map (fun line => Text.inked (line.trimEnd.drop indentation)) =
          rest.map Text.inked :=
        List.map_congr_left fun line member => (isKeptAs_later (few line member) 0).inked.symm
      rw [editedLines, List.flatMap_cons, List.flatMap_cons, List.flatMap_map, List.flatMap_def,
        restInked, ← List.flatMap_def, (isKeptAs_opening indentation opening).inked]

/-- No character is lost that is not blank. -/
theorem inked_text_ofBody (body : Text) : (ofBody body).text.inked = body.inked := by
  obtain ⟨front, back, split, frontEmpty, backEmpty⟩ :=
    dropOuterBlank_split (editedLines (bodyIndent body) (Text.lines body))
  have nothing : ∀ lines : List Text, (∀ line ∈ lines, line = []) →
      lines.flatMap Text.inked = [] := by
    intro lines allEmpty
    refine List.flatMap_eq_nil_iff.mpr fun line member => ?_
    rw [allEmpty line member]
    rfl
  calc (ofBody body).text.inked
      = (normalize body).flatMap Text.inked := Text.inked_ofLines _
    _ = (front ++ (normalize body ++ back)).flatMap Text.inked := by
        rw [List.flatMap_append, List.flatMap_append, nothing front frontEmpty,
          nothing back backEmpty, List.nil_append, List.append_nil]
    _ = (editedLines (bodyIndent body) (Text.lines body)).flatMap Text.inked := by
        rw [normalize_eq_dropOuterBlank, ← split]
    _ = (Text.lines body).flatMap Text.inked := inked_editedLines fun _ => bodyIndent_le
    _ = body.inked := by rw [← Text.inked_ofLines, Text.ofLines_lines]

theorem isLayout_normalize (body : Text) :
    ∃ start, IsLayout body (normalize body) start (bodyIndent body) := by
  obtain ⟨front, back, split, frontEmpty, backEmpty⟩ :=
    dropOuterBlank_split (editedLines (bodyIndent body) (Text.lines body))
  rw [← normalize_eq_dropOuterBlank] at split
  have few : ∀ line ∈ (Text.lines body).tail, ¬ line.IsBlank →
      bodyIndent body ≤ leadingBlanks line := fun _ => bodyIndent_le
  refine ⟨front.length, ?_, ?_, few, ?_⟩
  · intro place original placed outside
    obtain ⟨line, edited, isKept⟩ := isKeptAs_editedLines few placed
    rw [split] at edited
    refine isKept.blank.mp ?_
    rcases outside with before | behind
    · rw [List.getElem?_append_left before] at edited
      exact frontEmpty line (List.mem_of_getElem? edited)
    · rw [← List.append_assoc, List.getElem?_append_right (by simpa using behind)] at edited
      exact backEmpty line (List.mem_of_getElem? edited)
  · intro place line placed
    have edited : (editedLines (bodyIndent body) (Text.lines body))[front.length + place]? =
        some line := by
      rw [split, List.getElem?_append_right (Nat.le_add_right _ _), Nat.add_sub_cancel_left,
        List.getElem?_append_left (List.getElem?_eq_some_iff.mp placed).1]
      exact placed
    have inside : front.length + place < (Text.lines body).length := by
      rw [← length_editedLines (bodyIndent body) (Text.lines body)]
      exact (List.getElem?_eq_some_iff.mp edited).1
    obtain ⟨other, otherEdited, isKept⟩ :=
      isKeptAs_editedLines few (List.getElem?_eq_getElem inside)
    obtain rfl := Option.some.inj (edited.symm.trans otherEdited)
    exact ⟨_, List.getElem?_eq_getElem inside, isKept⟩
  · rintro ⟨line, member, notBlank⟩
    exact exists_bodyIndent member notBlank

/-- A body is kept as some of its lines, without any of its characters lost that are not blank.
The lines do not end with blank space, the first and the last are not empty, and only blank lines
around them and the common indentation are gone. -/
theorem ofBody_layout (body : Text) :
    (ofBody body).text.inked = body.inked ∧
      (∀ line ∈ (ofBody body).lines, '\n' ∉ line ∧
        ∀ last, line.getLast? = some last → Text.blank.contains last = false) ∧
      (ofBody body).lines.head? ≠ some [] ∧
      (ofBody body).lines.getLast? ≠ some [] ∧
      ∃ start indentation, IsLayout body (ofBody body).lines start indentation := by
  have normal := isNormal_normalize body
  obtain ⟨start, isLayout⟩ := isLayout_normalize body
  refine ⟨inked_text_ofBody body, ?_, normal.starts, normal.ends, start, _, isLayout⟩
  intro line member
  refine ⟨normal.unbroken line member, fun last isLast => ?_⟩
  obtain ⟨front, cut⟩ := List.getLast?_eq_some_iff.mp isLast
  exact dropTrailing_last ((normal.trimmed line member).trans cut)

end Block

end YulTree

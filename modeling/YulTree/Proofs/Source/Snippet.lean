import YulTree.Proofs.Text.Slice
import YulTree.Source.Snippet

/-!
# Snippets

There is a snippet exactly where a text can be sliced between two positions, the second of which may
lie behind the end, and it shows the first line of the slice, with dots if that is not all
(`snippet?_reference`).
-/

namespace YulTree.Text

/-- The longest beginning of an excerpt without a line break and of at most a hundred characters. -/
structure IsFirstLine (line excerpt : Text) : Prop where
  isPrefix : line <+: excerpt
  unbroken : ∀ c ∈ line, c ≠ '\n' ∧ c ≠ '\r'
  short : line.length ≤ 100
  longest : ∀ other, other <+: excerpt → (∀ c ∈ other, c ≠ '\n' ∧ c ≠ '\r') →
    other.length ≤ 100 → other.length ≤ line.length

theorem IsFirstLine.unique {line other excerpt : Text} (isFirst : IsFirstLine line excerpt)
    (otherFirst : IsFirstLine other excerpt) : line = other := by
  have notLonger := otherFirst.longest line isFirst.isPrefix isFirst.unbroken isFirst.short
  have notShorter := isFirst.longest other otherFirst.isPrefix otherFirst.unbroken otherFirst.short
  have isPrefix : line <+: other :=
    List.prefix_of_prefix_length_le isFirst.isPrefix otherFirst.isPrefix notLonger
  exact isPrefix.eq_of_length (Nat.le_antisymm notLonger notShorter)

/-- What stands before the first character that fails a test is the longest beginning that passes
it. -/
theorem prefix_takeWhile_of_forall {test : Char → Bool} {front text : Text}
    (isPrefix : front <+: text) (passes : ∀ c ∈ front, test c = true) :
    front <+: text.takeWhile test := by
  obtain ⟨back, rfl⟩ := isPrefix
  rw [List.takeWhile_append_of_pos passes]
  exact List.prefix_append front _

theorem passes_iff (c : Char) : (c != '\n' && c != '\r') = true ↔ c ≠ '\n' ∧ c ≠ '\r' := by
  rw [Bool.and_eq_true, bne_iff_ne, bne_iff_ne]

/-- What is shown of an excerpt is its first line. -/
theorem isFirstLine_take (excerpt : Text) :
    IsFirstLine ((excerpt.takeWhile fun c => c != '\n' && c != '\r').take maxSnippetLength)
      excerpt := by
  have taken := List.take_prefix maxSnippetLength
    (excerpt.takeWhile fun c => c != '\n' && c != '\r')
  refine ⟨taken.trans (List.takeWhile_prefix _), ?_, List.length_take_le _ _, ?_⟩
  · intro c member
    have passes := List.all_eq_true.mp List.all_takeWhile c (taken.subset member)
    exact (passes_iff c).mp passes
  · intro other isPrefix unbroken short
    have inLine := prefix_takeWhile_of_forall isPrefix fun c member =>
      (passes_iff c).mpr (unbroken c member)
    have lineLength := inLine.length_le
    rw [List.length_take]
    exact Nat.le_min.mpr ⟨short, lineLength⟩

/-- An excerpt is shortened to its first line, with dots where that is not all of it. -/
theorem shorten_of_isFirstLine {line excerpt : Text} (isFirst : IsFirstLine line excerpt) :
    shorten excerpt = if line.length < excerpt.length then line ++ "..." else line := by
  rw [isFirst.unique (isFirstLine_take excerpt)]
  rfl

theorem shorten_eq_iff {excerpt shown : Text} :
    shorten excerpt = shown ↔
      ∃ line, IsFirstLine line excerpt ∧
        (line = excerpt ∧ shown = line ∨
          line.length < excerpt.length ∧ shown = line ++ "...") := by
  constructor
  · rintro rfl
    refine ⟨_, isFirstLine_take excerpt, ?_⟩
    rw [shorten_of_isFirstLine (isFirstLine_take excerpt)]
    split
    · next cut => exact .inr ⟨cut, rfl⟩
    · next whole =>
        have isPrefix := (isFirstLine_take excerpt).isPrefix
        exact .inl ⟨isPrefix.eq_of_length_le (Nat.le_of_not_lt whole), rfl⟩
  · rintro ⟨line, isFirst, ⟨rfl, rfl⟩ | ⟨cut, rfl⟩⟩
    · rw [shorten_of_isFirstLine isFirst, if_neg (Nat.lt_irrefl _)]
    · rw [shorten_of_isFirstLine isFirst, if_pos cut]

/-- There is no snippet of an empty range, of one that begins behind the text, or of one that cuts a
character.  Otherwise it is the first line of what stands between the positions. -/
theorem snippet?_reference (text : Text) (start stop : Nat) :
    (text.snippet? start stop = none ↔
      stop ≤ start ∨ text.byteSize ≤ start ∨ ¬ text.IsBoundary start ∨
        ¬ text.IsBoundary (min stop text.byteSize)) ∧
    ∀ shown, text.snippet? start stop = some shown ↔
      start < stop ∧ start < text.byteSize ∧
      ∃ front excerpt back line, text = front ++ (excerpt ++ back) ∧ front.byteSize = start ∧
        start + excerpt.byteSize = min stop text.byteSize ∧ IsFirstLine line excerpt ∧
        (line = excerpt ∧ shown = line ∨
          line.length < excerpt.length ∧ shown = line ++ "...") := by
  rw [snippet?]
  by_cases outside : stop ≤ start ∨ text.byteSize ≤ start
  · rw [if_pos outside]
    constructor
    · simp only [true_iff]
      rcases outside with empty | behind
      · exact .inl empty
      · exact .inr (.inl behind)
    · intro shown
      simp only [reduceCtorEq, false_iff]
      rintro ⟨nonempty, inside, -⟩
      omega
  · rw [if_neg outside]
    obtain ⟨nonempty, inside⟩ := not_or.mp outside
    have ordered : start ≤ min stop text.byteSize := by omega
    constructor
    · rw [Option.map_eq_none_iff, slice?_eq_none_iff ordered]
      simp only [nonempty, inside, false_or]
    · intro shown
      simp only [Option.map_eq_some_iff, slice?_eq_some_iff ordered, shorten_eq_iff]
      constructor
      · rintro ⟨excerpt, ⟨front, back, cut, startEq, stopEq⟩, line, isFirst, isShown⟩
        exact ⟨by omega, by omega, front, excerpt, back, line, cut, startEq, stopEq, isFirst,
          isShown⟩
      · rintro ⟨-, -, front, excerpt, back, line, cut, startEq, stopEq, isFirst, isShown⟩
        exact ⟨excerpt, ⟨front, back, cut, startEq, stopEq⟩, line, isFirst, isShown⟩

/-- A carriage return cuts a snippet, and a position inside a character leaves none. -/
example : snippet? "aé\rb" 0 9 = some "aé..." ∧ snippet? "aé\rb" 2 9 = none := by decide

end YulTree.Text

import YulTree.Text.Basic

/-!
# Slices

A text can be sliced at two byte positions, in their order, exactly if neither of them lies inside
a character (`exists_slice?_iff`).
-/

namespace YulTree.Text

/-- A byte position between two characters of a text, or at one of its ends. -/
def IsBoundary (text : Text) (position : Nat) : Prop :=
  ∃ front back, text = front ++ back ∧ front.byteSize = position

theorem slice?_eq_some_iff {text part : Text} {start stop : Nat} (ordered : start ≤ stop) :
    text.slice? start stop = some part ↔
      ∃ front back, text = front ++ (part ++ back) ∧ front.byteSize = start ∧
        start + part.byteSize = stop := by
  constructor
  · intro found
    obtain ⟨⟨front, fromStart⟩, first, found⟩ := Option.bind_eq_some_iff.mp found
    obtain ⟨⟨taken, back⟩, second, found⟩ := Option.bind_eq_some_iff.mp found
    obtain rfl := Option.some.inj found
    obtain ⟨rfl, startEq⟩ := splitAtByte?_eq_some_iff.mp first
    obtain ⟨rfl, size⟩ := splitAtByte?_eq_some_iff.mp second
    exact ⟨front, back, rfl, startEq, by rw [size, Nat.add_sub_cancel' ordered]⟩
  · rintro ⟨front, back, rfl, startEq, stopEq⟩
    have first : splitAtByte? start (front ++ (part ++ back)) = some (front, part ++ back) :=
      splitAtByte?_eq_some_iff.mpr ⟨rfl, startEq⟩
    have second : splitAtByte? (stop - start) (part ++ back) = some (part, back) :=
      splitAtByte?_eq_some_iff.mpr ⟨rfl, by omega⟩
    simp [slice?, first, second]

theorem eq_nil_of_byteSize_eq_zero {text : Text} (empty : text.byteSize = 0) : text = [] := by
  cases text with
  | nil => rfl
  | cons c rest =>
      have positive := c.utf8Size_pos
      rw [byteSize_cons] at empty
      omega

/-- Of two cuts of a text, the earlier one also cuts what stands before the later one. -/
theorem exists_between_cuts {front back longer rest : Text}
    (sameText : front ++ back = longer ++ rest) (earlier : front.byteSize ≤ longer.byteSize) :
    ∃ part, longer = front ++ part ∧ back = part ++ rest := by
  rcases List.append_eq_append_iff.mp sameText with ⟨part, rfl, rfl⟩ | ⟨part, rfl, rfl⟩
  · exact ⟨part, rfl, rfl⟩
  · rw [byteSize_append] at earlier
    obtain rfl : part = [] := eq_nil_of_byteSize_eq_zero (by omega)
    exact ⟨[], by simp, by simp⟩

theorem isBoundary_of_slice? {text part : Text} {start stop : Nat} (ordered : start ≤ stop)
    (found : text.slice? start stop = some part) :
    text.IsBoundary start ∧ text.IsBoundary stop := by
  obtain ⟨front, back, rfl, startEq, stopEq⟩ := (slice?_eq_some_iff ordered).mp found
  refine ⟨⟨front, part ++ back, rfl, startEq⟩, front ++ part, back, by simp, ?_⟩
  rw [byteSize_append, startEq, stopEq]

/-- A text can be sliced between two boundaries and nowhere else. -/
theorem exists_slice?_iff {text : Text} {start stop : Nat} (ordered : start ≤ stop) :
    (∃ part, text.slice? start stop = some part) ↔
      text.IsBoundary start ∧ text.IsBoundary stop := by
  constructor
  · rintro ⟨part, found⟩
    exact isBoundary_of_slice? ordered found
  · rintro ⟨⟨front, back, rfl, startEq⟩, longer, rest, sameText, stopEq⟩
    obtain ⟨part, rfl, rfl⟩ := exists_between_cuts sameText (by omega)
    rw [byteSize_append] at stopEq
    exact ⟨part, (slice?_eq_some_iff ordered).mpr ⟨front, rest, rfl, startEq, by omega⟩⟩

theorem slice?_eq_none_iff {text : Text} {start stop : Nat} (ordered : start ≤ stop) :
    text.slice? start stop = none ↔ ¬ text.IsBoundary start ∨ ¬ text.IsBoundary stop := by
  rw [← Classical.not_and_iff_not_or_not, ← exists_slice?_iff ordered,
    Option.eq_none_iff_forall_ne_some, not_exists]

end YulTree.Text

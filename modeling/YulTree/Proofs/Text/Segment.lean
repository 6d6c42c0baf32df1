import YulTree.Text.Basic

/-!
# Segments

A text that is cut at every occurrence of a mark: the segments do not contain the mark, and they
are determined by the text (`eq_splitOn_iff`).
-/

namespace YulTree.Text

variable {mark : Char}

theorem not_mem_of_mem_splitOn {text segment : Text} (member : segment ∈ text.splitOn mark) :
    mark ∉ segment := by
  induction text generalizing segment with
  | nil =>
      obtain rfl := List.mem_singleton.mp member
      exact List.not_mem_nil
  | cons c rest inductionHypothesis =>
      rw [List.splitOn_cons_eq_if_modifyHead] at member
      split at member
      · rcases List.mem_cons.mp member with rfl | member
        · exact List.not_mem_nil
        · exact inductionHypothesis member
      · next isOther =>
          cases cut : rest.splitOn mark with
          | nil => exact absurd cut (List.splitOn_ne_nil mark rest)
          | cons head others =>
              rw [cut, List.modifyHead_cons] at member
              rcases List.mem_cons.mp member with rfl | member
              · have headUnmarked : mark ∉ head :=
                  inductionHypothesis (by rw [cut]; exact List.mem_cons_self)
                simp only [beq_iff_eq] at isOther
                simp [headUnmarked, Ne.symm isOther]
              · apply inductionHypothesis
                rw [cut]
                exact List.mem_cons_of_mem _ member

theorem intercalate_append {first second : List Text} (firstNonempty : first ≠ [])
    (secondNonempty : second ≠ []) :
    [mark].intercalate (first ++ second) =
      [mark].intercalate first ++ mark :: [mark].intercalate second := by
  induction first with
  | nil => exact absurd rfl firstNonempty
  | cons segment rest inductionHypothesis =>
      by_cases last : rest = []
      · subst last
        rw [List.singleton_append, List.intercalate_cons_of_ne_nil secondNonempty,
          List.intercalate_singleton, List.append_assoc]
        rfl
      · have more : rest ++ second ≠ [] := by simp [last]
        rw [List.cons_append, List.intercalate_cons_of_ne_nil more, inductionHypothesis last,
          List.intercalate_cons_of_ne_nil last]
        simp only [List.append_assoc]

/-- The segments of a text are the only ones without the mark that make up the text. -/
theorem eq_splitOn_iff {text : Text} {segments : List Text} :
    segments = text.splitOn mark ↔
      segments ≠ [] ∧ (∀ segment ∈ segments, mark ∉ segment) ∧
        text = [mark].intercalate segments := by
  constructor
  · rintro rfl
    refine ⟨List.splitOn_ne_nil mark text, ?_, (List.intercalate_splitOn mark).symm⟩
    intro segment member
    exact not_mem_of_mem_splitOn member
  · rintro ⟨nonempty, unmarked, rfl⟩
    exact (List.splitOn_intercalate mark unmarked nonempty).symm

/-- What stands before the first mark and behind it is determined by the text. -/
theorem append_mark_inj {first second rest more : Text} (firstUnmarked : mark ∉ first)
    (secondUnmarked : mark ∉ second) :
    first ++ mark :: rest = second ++ mark :: more ↔ first = second ∧ rest = more := by
  constructor
  · intro same
    have cut := congrArg (List.splitOn mark) same
    rw [List.splitOn_append_cons_self_of_not_mem firstUnmarked,
      List.splitOn_append_cons_self_of_not_mem secondUnmarked] at cut
    have sameFront : first = second := (List.cons.inj cut).1
    subst sameFront
    exact ⟨rfl, (List.cons.inj (List.append_cancel_left same)).2⟩
  · intro same
    rw [same.1, same.2]

end YulTree.Text

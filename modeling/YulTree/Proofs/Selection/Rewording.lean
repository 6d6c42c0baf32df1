import Mathlib.Data.List.Perm.Basic
import YulTree.Proofs.Selection.Parser

/-!
# Selections in other words

The text of a selection can be put in other words: with its components in another order or written
again, and with more blank space and commas.  This changes nothing as long as the text is no keyword
(`parse_verdict`).
-/

namespace YulTree.Selection

/-- Pieces in another order or written again, with blank space around them, or with blank pieces
between them. -/
inductive Reworded : List Text → List Text → Prop
  | reorder {pieces others : List Text} : pieces.Perm others → Reworded pieces others
  | again {piece : Text} {pieces : List Text} : piece ∈ pieces → Reworded pieces (piece :: pieces)
  | blank {piece : Text} {pieces : List Text} : piece.IsBlank → Reworded pieces (piece :: pieces)
  | padded {front piece back : Text} {pieces : List Text} : front.IsBlank → back.IsBlank →
      Reworded (piece :: pieces) ((front ++ (piece ++ back)) :: pieces)
  | trans {pieces others more : List Text} : Reworded pieces others → Reworded others more →
      Reworded pieces more

theorem labelsOf_subset {pieces others : List Text} (subset : pieces ⊆ others) :
    labelsOf pieces ⊆ labelsOf others := by
  intro label member
  obtain ⟨trimmed, nonempty⟩ := List.mem_filter.mp member
  exact List.mem_filter.mpr ⟨List.map_subset Text.trim subset trimmed, nonempty⟩

theorem notMem_of_isBlank {text : Text} (isBlank : text.IsBlank) : ',' ∉ text := by
  intro member
  exact absurd (isBlank ',' member) (by decide)

namespace Reworded

variable {pieces others : List Text}

/-- The same labels are there in other words. -/
theorem mem_labelsOf (reworded : Reworded pieces others) (label : Text) :
    label ∈ labelsOf pieces ↔ label ∈ labelsOf others := by
  induction reworded with
  | reorder permuted =>
      exact ⟨fun given => labelsOf_subset permuted.subset given,
        fun given => labelsOf_subset permuted.symm.subset given⟩
  | @again piece pieces member =>
      have known : piece :: pieces ⊆ pieces := List.cons_subset.mpr ⟨member, List.Subset.refl _⟩
      exact ⟨fun given => labelsOf_subset (List.subset_cons_self _ _) given,
        fun given => labelsOf_subset known given⟩
  | blank isBlank => rw [labelsOf_cons_blank isBlank]
  | @padded front piece back pieces frontBlank backBlank =>
      rw [labelsOf, labelsOf, List.map_cons, List.map_cons,
        Text.trim_around frontBlank piece backBlank]
  | trans _ _ first second => exact first.trans second

theorem ne_nil (reworded : Reworded pieces others) (nonempty : pieces ≠ []) : others ≠ [] := by
  induction reworded with
  | reorder permuted =>
      intro none
      rw [none] at permuted
      exact nonempty permuted.eq_nil
  | again | blank | padded => exact List.cons_ne_nil _ _
  | trans _ _ first second => exact second (first nonempty)

theorem unmarked (reworded : Reworded pieces others) (noMark : ∀ piece ∈ pieces, ',' ∉ piece) :
    ∀ piece ∈ others, ',' ∉ piece := by
  induction reworded with
  | reorder permuted =>
      intro piece member
      exact noMark piece (permuted.mem_iff.mpr member)
  | again member => exact List.forall_mem_cons.mpr ⟨noMark _ member, noMark⟩
  | blank isBlank => exact List.forall_mem_cons.mpr ⟨notMem_of_isBlank isBlank, noMark⟩
  | padded frontBlank backBlank =>
      obtain ⟨first, rest⟩ := List.forall_mem_cons.mp noMark
      refine List.forall_mem_cons.mpr ⟨?_, rest⟩
      rw [List.mem_append, List.mem_append, not_or, not_or]
      exact ⟨notMem_of_isBlank frontBlank, first, notMem_of_isBlank backBlank⟩
  | trans _ _ first second => exact second (first noMark)

end Reworded

theorem Verdict.ne_nil {labels : List Text} {selection : Selection}
    (verdict : Verdict labels (.ok selection)) : labels ≠ [] := by
  intro none
  have made := ofParts_of_verdict verdict
  rw [none] at made
  cases made

theorem Verdict.covered {labels : List Text} {selection : Selection}
    (verdict : Verdict labels (.ok selection)) :
    selection.snippet = true → selection.location = true := by
  cases verdict with
  | everything => exact fun _ => rfl
  | nothing => exact id
  | chosen _ _ covered named =>
      intro snippet
      exact (named .location).mpr (covered ((named .snippet).mp snippet))

/-- Which selection is named depends on the labels in a list only, if the list is no keyword. -/
theorem Verdict.congr {labels others : List Text} {selection : Selection}
    (verdict : Verdict labels (.ok selection))
    (notKeyword : ∀ keyword, IsKeyword keyword → labels ≠ [keyword])
    (same : ∀ label, label ∈ labels ↔ label ∈ others) : Verdict others (.ok selection) := by
  cases verdict with
  | everything => exact absurd rfl (notKeyword _ (.inl rfl))
  | nothing => exact absurd rfl (notKeyword _ (.inr rfl))
  | chosen nonempty known covered named =>
      obtain ⟨label, member⟩ := List.exists_mem_of_ne_nil _ nonempty
      apply Verdict.chosen (List.ne_nil_of_mem ((same label).mp member))
      · intro other otherMember
        exact known other ((same other).mpr otherMember)
      · rw [← same, ← same]
        exact covered
      · intro component
        rw [named, same]

theorem parse_reworded {text : Text} {selection : Selection} (parsed : parse text = .ok selection)
    (notKeyword : ∀ keyword, IsKeyword keyword → parts text ≠ [keyword]) {pieces : List Text}
    (reworded : Reworded (text.splitOn ',') pieces) :
    parse ([','].intercalate pieces) = .ok selection := by
  obtain ⟨nonempty, unmarked, -⟩ := Text.eq_splitOn_iff.mp (rfl : text.splitOn ',' = _)
  have verdict := ofParts_eq_iff.mp parsed
  rw [parse, parts_intercalate (reworded.ne_nil nonempty) (reworded.unmarked unmarked)]
  exact ofParts_of_verdict (verdict.congr notKeyword reworded.mem_labelsOf)

theorem isTrimmed_label (component : Component) :
    component.label ≠ [] ∧ component.label.IsTrimmed ∧ ',' ∉ component.label := by
  have trimmed : component.label.trim = component.label := by
    cases component <;> decide
  refine ⟨?_, (Text.trim_eq_iff.mp trimmed).1, ?_⟩
  · cases component <;> decide
  · cases component <;> decide

theorem labelsOf_labels (components : List Component) :
    labelsOf (components.map Component.label) = components.map Component.label := by
  induction components with
  | nil => rfl
  | cons component rest inductionHypothesis =>
      obtain ⟨nonempty, trimmed, -⟩ := isTrimmed_label component
      have trim := Text.trim_of_around (List.forall_mem_nil _) trimmed (List.forall_mem_nil _)
      rw [List.nil_append, List.append_nil] at trim
      rw [List.map_cons, labelsOf_cons_label (by rw [trim]; exact nonempty), trim,
        inductionHypothesis]

theorem verdict_labels {selection : Selection}
    (covered : selection.snippet = true → selection.location = true)
    (chooses : selection ≠ nothing) :
    Verdict ((Component.all.filter selection.has).map Component.label) (.ok selection) := by
  have named : ∀ component, selection.has component = true ↔
      component.label ∈ (Component.all.filter selection.has).map Component.label := by
    intro component
    have listed : component ∈ Component.all := by cases component <;> decide
    rw [List.mem_map_of_injective label_injective, List.mem_filter]
    simp [listed]
  apply Verdict.chosen
  · intro none
    apply chooses
    apply eq_of_has
    intro component
    have unchosen : ¬ selection.has component = true := by
      rw [named, none]
      exact List.not_mem_nil
    rw [Bool.eq_false_iff.mpr unchosen]
    cases component <;> rfl
  · intro label member
    obtain ⟨component, -, labelled⟩ := List.mem_map.mp member
    exact ⟨component, labelled⟩
  · rw [← named, ← named]
    exact covered
  · exact named

/-- A selection is read from its text, if it has no snippets without locations. -/
theorem parse_render {selection : Selection}
    (covered : selection.snippet = true → selection.location = true) :
    parse selection.render = .ok selection := by
  unfold render
  by_cases all : selection = everything
  · rw [if_pos all, all]
    rfl
  · by_cases none : selection = nothing
    · rw [if_neg all, if_pos none, none]
      rfl
    · have verdict := verdict_labels covered none
      rw [if_neg all, if_neg none, parse, parts_intercalate verdict.ne_nil, labelsOf_labels]
      · exact ofParts_of_verdict verdict
      · intro label member
        obtain ⟨component, -, labelled⟩ := List.mem_map.mp member
        rw [← labelled]
        exact (isTrimmed_label component).2.2

/-- A text in a settings file is read as it is by itself. -/
theorem ofJson_string (text : Text) :
    ofJson (.string text) = (parse text).mapError .invalid := rfl

/-- The selection that a text names, or its fault, is known from the labels that it lists.  A
selection that is named is named by its own text too, and unless that is a keyword, by the text in
any other words; and settings name the same. -/
theorem parse_verdict (text : Text) :
    (∀ result, parse text = result ↔ ∃ labels, Lists text labels ∧ Verdict labels result) ∧
      (∀ selection, parse text = .ok selection →
        parse selection.render = .ok selection ∧
          ((∀ keyword, IsKeyword keyword → ¬ Lists text [keyword]) →
            ∀ pieces, Reworded (text.splitOn ',') pieces →
              parse ([','].intercalate pieces) = .ok selection)) ∧
      (∀ selection, ofJson (.string text) = .ok selection ↔ parse text = .ok selection) ∧
      ∀ error, ofJson (.string text) = .error (.invalid error) ↔ parse text = .error error := by
  refine ⟨fun result => parse_eq_iff, ?_, ?_, ?_⟩
  · intro selection parsed
    refine ⟨parse_render (ofParts_eq_iff.mp parsed).covered, ?_⟩
    intro notKeyword pieces reworded
    apply parse_reworded parsed ?_ reworded
    intro keyword isKeyword alone
    exact notKeyword keyword isKeyword (parts_eq_iff.mp alone)
  · intro selection
    rw [ofJson_string]
    cases parse text with
    | error fault => exact ⟨nofun, nofun⟩
    | ok named => simp [Except.mapError]
  · intro error
    rw [ofJson_string]
    cases parse text with
    | error fault => simp [Except.mapError]
    | ok named => exact ⟨nofun, nofun⟩

/-- A component that is written once more, in front and with a blank before it. -/
theorem parse_verdict_again :
    parse "use-src ,location" = .ok ⟨true, false, false, true⟩ ∧
      (∀ keyword, IsKeyword keyword → ¬ Lists "use-src ,location" [keyword]) ∧
      Reworded (List.splitOn ',' "use-src ,location") ["\u2003location", "use-src ", "location"] ∧
      parse "\u2003location,use-src ,location" = .ok ⟨true, false, false, true⟩ := by
  have parsed : parse "use-src ,location" = .ok ⟨true, false, false, true⟩ := by decide +kernel
  have several : parts "use-src ,location" = ["use-src", "location"] := by decide +kernel
  have cut : List.splitOn ',' "use-src ,location" = ["use-src ", "location"] := by decide +kernel
  have notKeyword : ∀ keyword, IsKeyword keyword → ¬ Lists "use-src ,location" [keyword] := by
    intro keyword _ alone
    have same := parts_eq_iff.mpr alone
    rw [several] at same
    cases same
  have reworded : Reworded (List.splitOn ',' "use-src ,location")
      ["\u2003location", "use-src ", "location"] := by
    rw [cut]
    apply Reworded.trans (.again (List.mem_cons_of_mem _ List.mem_cons_self))
    have space : Text.IsBlank "\u2003" := List.all_eq_true.mp (by decide)
    exact .padded space (List.forall_mem_nil _)
  obtain ⟨-, named, -⟩ := parse_verdict "use-src ,location"
  exact ⟨parsed, notKeyword, reworded, (named _ parsed).2 notKeyword _ reworded⟩

end YulTree.Selection

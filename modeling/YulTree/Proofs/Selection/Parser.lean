import YulTree.Proofs.Text.Segment
import YulTree.Proofs.Text.Trim
import YulTree.Selection.Parser

/-!
# Lists of components

Which texts name which selections, and what is wrong with the others (`parse_verdict`).  The order
of the labels in a list does not count, nor how often each of them is there, nor blank space.
-/

namespace YulTree.Selection

/-- The labels that pieces give: blank pieces give none, and the others lose the blank space around
them. -/
inductive Labels : List Text → List Text → Prop
  | nil : Labels [] []
  | blank {piece : Text} {pieces labels : List Text} :
      piece.IsBlank → Labels pieces labels → Labels (piece :: pieces) labels
  | label {front label back : Text} {pieces labels : List Text} :
      front.IsBlank → back.IsBlank → label ≠ [] → label.IsTrimmed → Labels pieces labels →
      Labels ((front ++ (label ++ back)) :: pieces) (label :: labels)

/-- A text is made of pieces with commas between them that give some labels. -/
def Lists (text : Text) (labels : List Text) : Prop :=
  ∃ pieces, pieces ≠ [] ∧ (∀ piece ∈ pieces, ',' ∉ piece) ∧ text = [','].intercalate pieces ∧
    Labels pieces labels

def labelsOf (pieces : List Text) : List Text :=
  (pieces.map Text.trim).filter fun part => !part.isEmpty

theorem labelsOf_cons_blank {piece : Text} (isBlank : piece.IsBlank) (pieces : List Text) :
    labelsOf (piece :: pieces) = labelsOf pieces := by
  rw [labelsOf, List.map_cons, Text.trim_eq_nil_iff.mpr isBlank]
  rfl

theorem labelsOf_cons_label {piece : Text} (nonempty : piece.trim ≠ []) (pieces : List Text) :
    labelsOf (piece :: pieces) = piece.trim :: labelsOf pieces := by
  rw [labelsOf, List.map_cons, List.filter_cons_of_pos (by simpa using nonempty)]
  rfl

theorem labels_labelsOf (pieces : List Text) : Labels pieces (labelsOf pieces) := by
  induction pieces with
  | nil => exact .nil
  | cons piece rest inductionHypothesis =>
      by_cases empty : piece.trim = []
      · have isBlank := Text.trim_eq_nil_iff.mp empty
        rw [labelsOf_cons_blank isBlank]
        exact .blank isBlank inductionHypothesis
      · obtain ⟨front, back, split, frontBlank, backBlank⟩ := Text.exists_around_trim piece
        rw [labelsOf_cons_label empty]
        have labels := Labels.label frontBlank backBlank empty (Text.isTrimmed_trim piece)
          inductionHypothesis
        rw [← split] at labels
        exact labels

theorem labelsOf_eq_iff {pieces labels : List Text} :
    labelsOf pieces = labels ↔ Labels pieces labels := by
  constructor
  · intro same
    rw [← same]
    exact labels_labelsOf pieces
  · intro given
    induction given with
    | nil => rfl
    | blank isBlank _ inductionHypothesis =>
        rw [labelsOf_cons_blank isBlank, inductionHypothesis]
    | label frontBlank backBlank nonempty trimmed _ inductionHypothesis =>
        have trim := Text.trim_of_around frontBlank trimmed backBlank
        rw [labelsOf_cons_label (by rw [trim]; exact nonempty), trim, inductionHypothesis]

theorem parts_intercalate {pieces : List Text} (nonempty : pieces ≠ [])
    (unmarked : ∀ piece ∈ pieces, ',' ∉ piece) :
    parts ([','].intercalate pieces) = labelsOf pieces := by
  have cut : pieces = List.splitOn ',' ([','].intercalate pieces) :=
    Text.eq_splitOn_iff.mpr ⟨nonempty, unmarked, rfl⟩
  rw [parts, ← cut, labelsOf]

theorem parts_eq_iff {text : Text} {labels : List Text} :
    parts text = labels ↔ Lists text labels := by
  constructor
  · intro same
    obtain ⟨nonempty, unmarked, whole⟩ := Text.eq_splitOn_iff.mp (rfl : text.splitOn ',' = _)
    exact ⟨text.splitOn ',', nonempty, unmarked, whole, labelsOf_eq_iff.mp same⟩
  · intro lists
    obtain ⟨pieces, nonempty, unmarked, whole, given⟩ := lists
    rw [whole, parts_intercalate nonempty unmarked]
    exact labelsOf_eq_iff.mpr given

def IsKeyword (label : Text) : Prop := label = everythingKeyword ∨ label = nothingKeyword

def IsComponent (label : Text) : Prop := ∃ component : Component, component.label = label

theorem IsComponent.not_isKeyword {label : Text} (isComponent : IsComponent label) :
    ¬ IsKeyword label := by
  obtain ⟨component, rfl⟩ := isComponent
  unfold IsKeyword
  cases component <;> decide

theorem label_injective : Function.Injective Component.label := by
  intro component other same
  have found := Component.ofLabel?_label component
  rw [same, Component.ofLabel?_label] at found
  exact (Option.some.inj found).symm

theorem eq_of_has {first second : Selection}
    (same : ∀ component, first.has component = second.has component) : first = second := by
  obtain ⟨location, snippet, astId, useSrc⟩ := first
  have sameLocation : location = second.location := same .location
  have sameSnippet : snippet = second.snippet := same .snippet
  have sameAstId : astId = second.astId := same .astId
  have sameUseSrc : useSrc = second.useSrc := same .useSrc
  rw [sameLocation, sameSnippet, sameAstId, sameUseSrc]

theorem choose_keyword {label : Text} (isKeyword : IsKeyword label) (selection : Selection) :
    choose selection label = .error (.exclusiveKeyword label) := if_pos isKeyword

theorem choose_of_not_isKeyword {label : Text} (notKeyword : ¬ IsKeyword label)
    (selection : Selection) :
    choose selection label =
      match Component.ofLabel? label with
      | some component => .ok (selection.set component true)
      | none => .error (.unknownComponent label) := if_neg notKeyword

theorem choose_component (component : Component) (selection : Selection) :
    choose selection component.label = .ok (selection.set component true) := by
  rw [choose_of_not_isKeyword (IsComponent.not_isKeyword ⟨component, rfl⟩),
    Component.ofLabel?_label]

theorem choose_unknown {label : Text} (notKeyword : ¬ IsKeyword label)
    (unknown : ¬ IsComponent label) (selection : Selection) :
    choose selection label = .error (.unknownComponent label) := by
  have none : Component.ofLabel? label = none := by
    apply List.find?_eq_none.mpr
    intro component _ same
    exact unknown ⟨component, by simpa using same⟩
  rw [choose_of_not_isKeyword notKeyword, none]

/-- Components that are named are chosen beside those that were chosen before. -/
theorem exists_chosen {labels : List Text} (known : ∀ label ∈ labels, IsComponent label)
    (selection : Selection) :
    ∃ chosen, labels.foldlM choose selection = .ok chosen ∧
      ∀ component, chosen.has component = true ↔
        selection.has component = true ∨ component.label ∈ labels := by
  induction labels generalizing selection with
  | nil => exact ⟨selection, rfl, by simp⟩
  | cons label rest inductionHypothesis =>
      obtain ⟨first, others⟩ := List.forall_mem_cons.mp known
      obtain ⟨component, rfl⟩ := first
      obtain ⟨chosen, folded, has⟩ := inductionHypothesis others (selection.set component true)
      refine ⟨chosen, ?_, ?_⟩
      · rw [List.foldlM_cons, choose_component]
        exact folded
      · intro other
        rw [has, has_set, List.mem_cons, label_injective.eq_iff]
        by_cases same : other = component
        · simp [same]
        · simp [same]

/-- Components that are named, and no others, are chosen. -/
theorem exists_named {labels : List Text} (known : ∀ label ∈ labels, IsComponent label) :
    ∃ chosen : Selection, labels.foldlM choose nothing = .ok chosen ∧
      ∀ component, chosen.has component = true ↔ component.label ∈ labels := by
  obtain ⟨chosen, folded, has⟩ := exists_chosen known nothing
  refine ⟨chosen, folded, ?_⟩
  intro component
  have unchosen : nothing.has component = false := by cases component <;> rfl
  rw [has, unchosen]
  simp

theorem foldlM_refused {known : List Text} (isKnown : ∀ label ∈ known, IsComponent label)
    {label : Text} {error : SelectionError}
    (refused : ∀ selection, choose selection label = .error error) (rest : List Text) :
    (known ++ label :: rest).foldlM choose nothing = .error error := by
  obtain ⟨chosen, folded, -⟩ := exists_chosen isKnown nothing
  rw [List.foldlM_append, folded]
  change (label :: rest).foldlM choose chosen = .error error
  rw [List.foldlM_cons, refused]
  rfl

/-- What comes of a list of labels.  A keyword stands for a selection if it is the only label; else
the first label that is no component is at fault, and after all labels a snippet without a
location. -/
inductive Verdict : List Text → Except SelectionError Selection → Prop
  | empty : Verdict [] (.error .empty)
  | everything : Verdict [everythingKeyword] (.ok everything)
  | nothing : Verdict [nothingKeyword] (.ok nothing)
  | exclusive {known rest : List Text} {keyword : Text} :
      (∀ label ∈ known, IsComponent label) → IsKeyword keyword →
      known ++ keyword :: rest ≠ [keyword] →
      Verdict (known ++ keyword :: rest) (.error (.exclusiveKeyword keyword))
  | unknown {known rest : List Text} {label : Text} :
      (∀ label ∈ known, IsComponent label) → ¬ IsKeyword label → ¬ IsComponent label →
      Verdict (known ++ label :: rest) (.error (.unknownComponent label))
  | uncovered {labels : List Text} :
      (∀ label ∈ labels, IsComponent label) → Component.snippet.label ∈ labels →
      Component.location.label ∉ labels → Verdict labels (.error .snippetWithoutLocation)
  | chosen {labels : List Text} {selection : Selection} :
      labels ≠ [] → (∀ label ∈ labels, IsComponent label) →
      (Component.snippet.label ∈ labels → Component.location.label ∈ labels) →
      (∀ component, selection.has component = true ↔ component.label ∈ labels) →
      Verdict labels (.ok selection)

/-- The first label that is no component, if there is one. -/
theorem first_unknown_cases (labels : List Text) :
    (∀ label ∈ labels, IsComponent label) ∨
      ∃ known label rest, labels = known ++ label :: rest ∧
        (∀ other ∈ known, IsComponent other) ∧ ¬ IsComponent label := by
  induction labels with
  | nil => exact .inl (List.forall_mem_nil _)
  | cons label rest inductionHypothesis =>
      by_cases isComponent : IsComponent label
      · rcases inductionHypothesis with all | ⟨known, other, behind, split, isKnown, unknown⟩
        · exact .inl (List.forall_mem_cons.mpr ⟨isComponent, all⟩)
        · refine .inr ⟨label :: known, other, behind, by rw [split]; rfl, ?_, unknown⟩
          exact List.forall_mem_cons.mpr ⟨isComponent, isKnown⟩
      · exact .inr ⟨[], label, rest, rfl, List.forall_mem_nil _, isComponent⟩

theorem exists_verdict (labels : List Text) : ∃ result, Verdict labels result := by
  rcases first_unknown_cases labels with known | ⟨known, label, rest, rfl, isKnown, unknown⟩
  · by_cases none : labels = []
    · subst none
      exact ⟨_, .empty⟩
    · by_cases covered : Component.snippet.label ∈ labels → Component.location.label ∈ labels
      · obtain ⟨selection, -, named⟩ := exists_named known
        exact ⟨_, .chosen none known covered named⟩
      · obtain ⟨snippet, noLocation⟩ := Classical.not_imp.mp covered
        exact ⟨_, .uncovered known snippet noLocation⟩
  · by_cases isKeyword : IsKeyword label
    · by_cases alone : known ++ label :: rest = [label]
      · rw [alone]
        rcases isKeyword with rfl | rfl
        · exact ⟨_, .everything⟩
        · exact ⟨_, .nothing⟩
      · exact ⟨_, .exclusive isKnown isKeyword alone⟩
    · exact ⟨_, .unknown isKnown isKeyword unknown⟩

theorem ofParts_of_ne {labels : List Text} (nonempty : labels ≠ [])
    (notKeyword : ∀ keyword, IsKeyword keyword → labels ≠ [keyword]) :
    ofParts labels = (labels.foldlM choose nothing).bind validate := by
  unfold ofParts
  rw [if_neg nonempty, if_neg (notKeyword _ (.inl rfl)), if_neg (notKeyword _ (.inr rfl))]

theorem ne_keyword_of_known {labels : List Text} (known : ∀ label ∈ labels, IsComponent label) :
    ∀ keyword, IsKeyword keyword → labels ≠ [keyword] := by
  intro keyword isKeyword alone
  subst alone
  exact (known keyword List.mem_cons_self).not_isKeyword isKeyword

/-- A label in a list that is a single other label is that label, and all there is. -/
theorem ne_singleton {known rest : List Text} {label : Text}
    (several : known ++ label :: rest ≠ [label]) (other : Text) :
    known ++ label :: rest ≠ [other] := by
  intro alone
  have member : label ∈ [other] := alone ▸ List.mem_append_right known List.mem_cons_self
  rw [List.mem_singleton.mp member] at several
  rw [List.mem_singleton.mp member] at alone
  exact several alone

theorem ofParts_known {labels : List Text} (nonempty : labels ≠ [])
    (known : ∀ label ∈ labels, IsComponent label) :
    ∃ chosen : Selection, ofParts labels = chosen.validate ∧
      ∀ component, chosen.has component = true ↔ component.label ∈ labels := by
  obtain ⟨chosen, folded, named⟩ := exists_named known
  refine ⟨chosen, ?_, named⟩
  rw [ofParts_of_ne nonempty (ne_keyword_of_known known), folded]
  rfl

theorem validate_of_covered {selection : Selection}
    (covered : selection.snippet = true → selection.location = true) :
    selection.validate = .ok selection := by
  apply if_neg
  rw [Bool.and_eq_true, Bool.not_eq_true']
  intro uncovered
  rw [covered uncovered.1] at uncovered
  cases uncovered.2

theorem validate_of_uncovered {selection : Selection} (snippet : selection.snippet = true)
    (noLocation : selection.location = false) :
    selection.validate = .error .snippetWithoutLocation := by
  apply if_pos
  rw [snippet, noLocation]
  rfl

theorem ofParts_of_verdict {labels : List Text} {result : Except SelectionError Selection}
    (verdict : Verdict labels result) : ofParts labels = result := by
  cases verdict with
  | empty => rfl
  | everything => rfl
  | nothing => rfl
  | @exclusive known rest keyword isKnown isKeyword several =>
      rw [ofParts_of_ne (by simp) fun other _ => ne_singleton several other,
        foldlM_refused isKnown (choose_keyword isKeyword)]
      rfl
  | @unknown known rest label isKnown notKeyword unknown =>
      have others : ∀ keyword, IsKeyword keyword → known ++ label :: rest ≠ [keyword] := by
        intro keyword isKeyword alone
        have member : label ∈ [keyword] := alone ▸ List.mem_append_right known List.mem_cons_self
        exact notKeyword (List.mem_singleton.mp member ▸ isKeyword)
      rw [ofParts_of_ne (by simp) others, foldlM_refused isKnown (choose_unknown notKeyword unknown)]
      rfl
  | uncovered known snippet noLocation =>
      obtain ⟨chosen, made, named⟩ := ofParts_known (List.ne_nil_of_mem snippet) known
      have hidden : chosen.location = false :=
        Bool.eq_false_iff.mpr fun located => noLocation ((named .location).mp located)
      rw [made]
      exact validate_of_uncovered ((named .snippet).mpr snippet) hidden
  | @chosen labels selection nonempty known covered named =>
      obtain ⟨chosen, made, has⟩ := ofParts_known nonempty known
      have same : chosen = selection := by
        apply eq_of_has
        intro component
        rw [Bool.eq_iff_iff, has, named]
      rw [made, same]
      apply validate_of_covered
      intro snippet
      exact (named .location).mpr (covered ((named .snippet).mp snippet))

theorem ofParts_eq_iff {labels : List Text} {result : Except SelectionError Selection} :
    ofParts labels = result ↔ Verdict labels result := by
  constructor
  · intro made
    obtain ⟨other, verdict⟩ := exists_verdict labels
    rw [← made, ofParts_of_verdict verdict]
    exact verdict
  · exact ofParts_of_verdict

/-- A text is read as the verdict on the labels that it lists. -/
theorem parse_eq_iff {text : Text} {result : Except SelectionError Selection} :
    parse text = result ↔ ∃ labels, Lists text labels ∧ Verdict labels result := by
  rw [parse, ofParts_eq_iff]
  constructor
  · intro verdict
    exact ⟨parts text, parts_eq_iff.mp rfl, verdict⟩
  · intro listed
    obtain ⟨labels, lists, verdict⟩ := listed
    rw [parts_eq_iff.mpr lists]
    exact verdict

end YulTree.Selection

import YulTree.Text.CharClass

/-!
# Trimming

What is dropped at the two ends of a list, and of a text in particular.  The main statement,
`dropTrailing_append_of_last`, says that nothing is lost before the last element that is kept.
-/

namespace YulTree

/-- A list without the elements at its end that satisfy a test. -/
def dropTrailing {α : Type} (test : α → Bool) : List α → List α
  | [] => []
  | a :: rest =>
      match dropTrailing test rest with
      | [] => if test a then [] else [a]
      | b :: kept => a :: b :: kept

/-- Nothing is dropped before an element that fails the test. -/
theorem dropTrailing_append_of_last {α : Type} {test : α → Bool} {last : α}
    (kept : test last = false) (front back : List α)
    (dropped : ∀ a ∈ back, test a = true) :
    dropTrailing test (front ++ last :: back) = front ++ [last] := by
  have backDropped : dropTrailing test back = [] := by
    induction back with
    | nil => rfl
    | cons a rest inductionHypothesis =>
        have restDropped :=
          inductionHypothesis fun b member => dropped b (List.mem_cons_of_mem _ member)
        simp [dropTrailing, restDropped, dropped a List.mem_cons_self]
  induction front with
  | nil => simp [dropTrailing, backDropped, kept]
  | cons a rest inductionHypothesis =>
      rw [List.cons_append, dropTrailing, inductionHypothesis]
      cases rest <;> rfl

namespace Text

def trimStart (text : Text) : Text := text.dropWhile blank.contains

def trimEnd (text : Text) : Text := dropTrailing blank.contains text

def trim (text : Text) : Text := trimEnd (trimStart text)

/-- The rest of a text after a given beginning, if it begins so. -/
def dropPrefix? (beginning text : Text) : Option Text :=
  if beginning.isPrefixOf text then some (text.drop beginning.length) else none

theorem dropPrefix?_append (beginning rest : Text) :
    dropPrefix? beginning (beginning ++ rest) = some rest := by
  simp [dropPrefix?]

theorem dropPrefix?_eq_some_iff {beginning text rest : Text} :
    dropPrefix? beginning text = some rest ↔ text = beginning ++ rest := by
  constructor
  · intro found
    unfold dropPrefix? at found
    split at found
    · next isPrefix =>
        obtain ⟨rest', rfl⟩ := List.isPrefixOf_iff_prefix.mp isPrefix
        simpa using found
    · exact nomatch found
  · rintro rfl
    exact dropPrefix?_append beginning rest

end Text

end YulTree

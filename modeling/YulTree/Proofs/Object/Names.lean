import YulTree.Object.Attach

/-!
# Names of children

The rule that the names of children keep, and how attaching a child keeps it.
-/

namespace YulTree

variable {κ : Type}

/-- The children of an object have names, none of them twice, and none that of the object. -/
structure NamesFit (parent : Text) (children : List Text) : Prop where
  named : [] ∉ children
  distinct : children.Nodup
  unshadowed : parent ∉ children

/-- The object with one more child, in the slot behind the others. -/
def Object.grow (parent : Object κ) (node : Node κ) : Object κ :=
  { parent with children := parent.children ++ [node.inSlot parent.children.length] }

/-- A child is attached exactly if its name may stand among the children. -/
theorem Object.attach_eq_ok_iff {parent grown : Object κ} {node : Node κ} :
    parent.attach node = .ok grown ↔
      node.name ≠ [] ∧ node.name ≠ parent.name ∧ node.name ∉ parent.childNames ∧
        grown = parent.grow node := by
  unfold attach grow
  by_cases nameless : node.name = []
  · simp [nameless]
  · by_cases shadows : node.name = parent.name
    · rw [if_neg nameless, if_pos shadows]
      simp [shadows]
    · by_cases used : node.name ∈ parent.childNames
      · simp [nameless, shadows, used]
      · simp [nameless, shadows, used, eq_comm]

namespace NamesFit

theorem nil (parent : Text) : NamesFit parent [] :=
  ⟨List.not_mem_nil, List.nodup_nil, List.not_mem_nil⟩

theorem of_append {parent : Text} {first second : List Text}
    (fits : NamesFit parent (first ++ second)) : NamesFit parent first := by
  obtain ⟨named, distinct, unshadowed⟩ := fits
  simp only [List.mem_append, not_or] at named unshadowed
  exact ⟨named.1, (List.nodup_append.mp distinct).1, unshadowed.1⟩

/-- One more name fits if it is a name, and neither the parent's nor in use. -/
theorem append_singleton_iff {parent name : Text} {names : List Text} :
    NamesFit parent (names ++ [name]) ↔
      NamesFit parent names ∧ name ≠ [] ∧ name ≠ parent ∧ name ∉ names := by
  constructor
  · rintro ⟨named, distinct, unshadowed⟩
    obtain ⟨distinctNames, -, disjoint⟩ := List.nodup_append.mp distinct
    simp only [List.mem_append, List.mem_singleton, not_or] at named unshadowed
    refine ⟨⟨named.1, distinctNames, unshadowed.1⟩, Ne.symm named.2, Ne.symm unshadowed.2, ?_⟩
    intro used
    exact disjoint name used name (List.mem_singleton.mpr rfl) rfl
  · rintro ⟨⟨named, distinct, unshadowed⟩, nonempty, different, unused⟩
    refine ⟨?_, ?_, ?_⟩
    · simp [named, Ne.symm nonempty]
    · refine List.nodup_append.mpr ⟨distinct, by simp, ?_⟩
      rintro first used second single rfl
      exact unused (List.mem_singleton.mp single ▸ used)
    · simp [unshadowed, Ne.symm different]

end NamesFit

@[simp]
theorem Node.name_inSlot (slot : Nat) (node : Node κ) : (node.inSlot slot).name = node.name := by
  cases node <;> rfl

@[simp]
theorem Object.name_grow (parent : Object κ) (node : Node κ) :
    (parent.grow node).name = parent.name := rfl

@[simp]
theorem Object.childNames_grow (parent : Object κ) (node : Node κ) :
    (parent.grow node).childNames = parent.childNames ++ [node.name] := by
  rw [childNames, grow, List.map_append, List.map_singleton, Node.name_inSlot]
  rfl

/-- If a child's name fits the others, then it can be attached. -/
theorem Object.attach_of_namesFit {parent : Object κ} (node : Node κ) {more : List Text}
    (fits : NamesFit parent.name (parent.childNames ++ node.name :: more)) :
    parent.attach node = .ok (parent.grow node) := by
  have fitsAll : NamesFit parent.name (parent.childNames ++ [node.name] ++ more) := by
    rw [List.append_assoc]
    exact fits
  have fitsFirst : NamesFit parent.name (parent.childNames ++ [node.name]) := fitsAll.of_append
  obtain ⟨-, nonempty, different, unused⟩ := NamesFit.append_singleton_iff.mp fitsFirst
  exact attach_eq_ok_iff.mpr ⟨nonempty, different, unused, rfl⟩

/-- The names of further children fit as well behind one that has been attached. -/
theorem Object.namesFit_grow_iff {parent : Object κ} {node : Node κ} {more : List Text} :
    NamesFit (parent.grow node).name ((parent.grow node).childNames ++ more) ↔
      NamesFit parent.name (parent.childNames ++ node.name :: more) := by
  rw [name_grow, childNames_grow, List.append_assoc, List.singleton_append]

/-- Attaching a child keeps the rule for the names of children. -/
theorem Object.namesFit_of_attach {parent grown : Object κ} {node : Node κ}
    (fits : NamesFit parent.name parent.childNames) (attached : parent.attach node = .ok grown) :
    NamesFit grown.name grown.childNames := by
  obtain ⟨nonempty, different, unused, rfl⟩ := attach_eq_ok_iff.mp attached
  rw [name_grow, childNames_grow]
  exact NamesFit.append_singleton_iff.mpr ⟨fits, nonempty, different, unused⟩

end YulTree

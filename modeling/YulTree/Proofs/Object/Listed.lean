import YulTree.Object.Summary
import YulTree.Proofs.Object.Passage
import YulTree.Proofs.Text.Segment

/-!
# Listed paths

The summary of an object lists the paths whose segments lead to a node below it
(`mem_reachable_iff`), sorted into objects (`containsObject_iff`) and byte strings
(`listsData_iff`).
-/

namespace YulTree.Object

variable {κ : Type}

/-- A row of names leads from an object to a node below it. -/
inductive Leads : List Text → Object κ → Node κ → Prop where
  | child {object : Object κ} {node : Node κ} :
      node ∈ object.children → Leads [node.name] object node
  | deeper {segments : List Text} {object nested : Object κ} {node : Node κ} :
      .object nested ∈ object.children → Leads segments nested node →
        Leads (nested.name :: segments) object node

theorem Leads.ne_nil {segments : List Text} {object : Object κ} {node : Node κ}
    (leads : Leads segments object node) : segments ≠ [] := by
  cases leads with
  | child member => exact List.cons_ne_nil _ _
  | deeper member leads => exact List.cons_ne_nil _ _

theorem Passes.leads {front segments : List Text} {slots : List Nat} {object here : Object κ}
    {node : Node κ} (passes : Passes front slots object here)
    (leads : Leads segments here node) : Leads (front ++ segments) object node := by
  induction passes with
  | here object => exact leads
  | @deeper front slots slot object nested target placed passes inductionHypothesis =>
      exact .deeper (mem_children_iff.mpr ⟨slot, placed⟩) (inductionHypothesis leads)

theorem Leads.exists_passes {segments : List Text} {object : Object κ} {node : Node κ}
    (leads : Leads segments object node) :
    ∃ front slots here, segments = front ++ [node.name] ∧ Passes front slots object here ∧
      node ∈ here.children := by
  induction leads with
  | @child object node member => exact ⟨[], [], object, rfl, .here object, member⟩
  | @deeper segments object nested node member leads inductionHypothesis =>
      obtain ⟨front, slots, here, rfl, passes, isChild⟩ := inductionHypothesis
      obtain ⟨slot, placed⟩ := mem_children_iff.mp member
      exact ⟨nested.name :: front, slot :: slots, here, rfl, .deeper placed passes, isChild⟩

theorem leads_data_iff {segments : List Text} {object : Object κ} :
    (∃ entry, Leads segments object (.data entry)) ↔ ReachesData segments object := by
  constructor
  · rintro ⟨entry, leads⟩
    obtain ⟨front, slots, here, cut, passes, member⟩ := leads.exists_passes
    exact ⟨front, slots, here, entry, cut, passes, member⟩
  · rintro ⟨front, slots, here, entry, rfl, passes, member⟩
    exact ⟨entry, passes.leads (.child member)⟩

theorem Passes.snoc {front : List Text} {slots : List Nat} {slot : Nat}
    {object here target : Object κ} (passes : Passes front slots object here)
    (placed : here.childAt? slot = some (.object target)) :
    Passes (front ++ [target.name]) (slots ++ [slot]) object target := by
  induction passes with
  | here object => exact .deeper placed (.here target)
  | deeper outer passes inductionHypothesis => exact .deeper outer (inductionHypothesis placed)

theorem leads_object_iff {segments : List Text} {object target : Object κ}
    (nonempty : segments ≠ []) :
    Leads segments object (.object target) ↔ ∃ slots, Passes segments slots object target := by
  constructor
  · intro leads
    obtain ⟨front, slots, here, rfl, passes, member⟩ := leads.exists_passes
    obtain ⟨slot, placed⟩ := mem_children_iff.mp member
    exact ⟨slots ++ [slot], passes.snoc placed⟩
  · rintro ⟨slots, passes⟩
    induction passes with
    | here object => exact absurd rfl nonempty
    | @deeper segments slots slot object nested target placed passes inductionHypothesis =>
        have member : .object nested ∈ object.children := mem_children_iff.mpr ⟨slot, placed⟩
        by_cases last : segments = []
        · subst last
          cases passes
          exact .child member
        · exact .deeper member (inductionHypothesis last)

def join (segments : List Text) : Text := ['.'].intercalate segments

mutual

theorem exists_leads_of_mem_reachable : ∀ (object : Object κ) (front : Text)
    {path : Text} {node : Node κ}, (path, node) ∈ object.reachable front →
    ∃ segments, Leads segments object node ∧ (∀ segment ∈ segments, '.' ∉ segment) ∧
      path = front ++ join segments
  | { name, code, analysis, debug, slot, children }, front, _, _, member =>
      exists_leads_of_mem_reachableAll children front member
        { name, code, analysis, debug, slot, children } fun _ isChild => isChild

theorem exists_leads_of_mem_reachableAll : ∀ (children : List (Node κ)) (front : Text)
    {path : Text} {node : Node κ}, (path, node) ∈ reachableAll front children →
    ∀ object : Object κ, (∀ child ∈ children, child ∈ object.children) →
    ∃ segments, Leads segments object node ∧ (∀ segment ∈ segments, '.' ∉ segment) ∧
      path = front ++ join segments
  | [], front, path, node, member, object, areChildren => by cases member
  | .data entry :: rest, front, path, node, member, object, areChildren => by
      obtain ⟨isChild, areRest⟩ := List.forall_mem_cons.mp areChildren
      rw [reachableAll] at member
      split at member
      · exact exists_leads_of_mem_reachableAll rest front member object areRest
      · next undotted =>
          rcases List.mem_cons.mp member with found | later
          · cases found
            refine ⟨[entry.name], .child isChild, ?_, ?_⟩
            · simpa using undotted
            · rw [join, List.intercalate_singleton]
          · exact exists_leads_of_mem_reachableAll rest front later object areRest
  | .object nested :: rest, front, path, node, member, object, areChildren => by
      obtain ⟨isChild, areRest⟩ := List.forall_mem_cons.mp areChildren
      rw [reachableAll] at member
      split at member
      · exact exists_leads_of_mem_reachableAll rest front member object areRest
      · next dotted =>
          have undotted : '.' ∉ nested.name := by simpa using dotted
          rcases List.mem_cons.mp member with found | later
          · cases found
            refine ⟨[nested.name], .child isChild, ?_, ?_⟩
            · simpa using undotted
            · rw [join, List.intercalate_singleton]
          · rcases List.mem_append.mp later with below | later
            · obtain ⟨segments, leads, allUndotted, pathEq⟩ :=
                exists_leads_of_mem_reachable nested _ below
              refine ⟨nested.name :: segments, .deeper isChild leads, ?_, ?_⟩
              · exact List.forall_mem_cons.mpr ⟨undotted, allUndotted⟩
              · rw [pathEq, join, join, List.intercalate_cons_of_ne_nil leads.ne_nil]
                simp
            · exact exists_leads_of_mem_reachableAll rest front later object areRest

end

theorem reachableAll_append (front : Text) (first second : List (Node κ)) :
    reachableAll front (first ++ second) =
      reachableAll front first ++ reachableAll front second := by
  induction first with
  | nil => rfl
  | cons node rest inductionHypothesis =>
      cases node with
      | data entry =>
          rw [List.cons_append, reachableAll, inductionHypothesis, reachableAll]
          split <;> rfl
      | object nested =>
          rw [List.cons_append, reachableAll, inductionHypothesis, reachableAll]
          split
          · rfl
          · simp only [List.cons_append, List.append_assoc]

theorem mem_reachable_of_child {object : Object κ} {child : Node κ} {front : Text}
    {found : Text × Node κ} (member : child ∈ object.children)
    (childFound : found ∈ reachableAll front [child]) : found ∈ object.reachable front := by
  obtain ⟨name, code, analysis, debug, slot, children⟩ := object
  obtain ⟨before, after, rfl⟩ := List.append_of_mem member
  rw [reachable, reachableAll_append, ← List.singleton_append, reachableAll_append]
  exact List.mem_append_right _ (List.mem_append_left _ childFound)

theorem mem_reachable_of_leads {segments : List Text} {object : Object κ} {node : Node κ}
    (leads : Leads segments object node) (undotted : ∀ segment ∈ segments, '.' ∉ segment)
    (front : Text) : (front ++ join segments, node) ∈ object.reachable front := by
  induction leads generalizing front with
  | @child object node member =>
      obtain ⟨nameUndotted, -⟩ := List.forall_mem_cons.mp undotted
      apply mem_reachable_of_child member
      rw [join, List.intercalate_singleton]
      cases node with
      | data entry =>
          rw [reachableAll, if_neg (by simpa [Node.name] using nameUndotted)]
          exact List.mem_cons_self
      | object nested =>
          rw [reachableAll, if_neg (by simpa [Node.name] using nameUndotted)]
          exact List.mem_cons_self
  | @deeper segments object nested node member leads inductionHypothesis =>
      obtain ⟨nameUndotted, restUndotted⟩ := List.forall_mem_cons.mp undotted
      have below := inductionHypothesis restUndotted (front ++ nested.name ++ ['.'])
      apply mem_reachable_of_child member
      rw [reachableAll, if_neg (by simpa using nameUndotted)]
      apply List.mem_cons_of_mem
      apply List.mem_append_left
      rw [join, List.intercalate_cons_of_ne_nil leads.ne_nil]
      simpa [join] using below

/-- A path is listed with a node exactly if its segments lead to the node. -/
theorem mem_reachable_iff {object : Object κ} {path : Text} {node : Node κ} :
    (path, node) ∈ object.reachable [] ↔ Leads (path.splitOn '.') object node := by
  constructor
  · intro member
    obtain ⟨segments, leads, undotted, pathEq⟩ := exists_leads_of_mem_reachable object [] member
    have cut : segments = path.splitOn '.' :=
      Text.eq_splitOn_iff.mpr ⟨leads.ne_nil, undotted, pathEq⟩
    rw [← cut]
    exact leads
  · intro leads
    have undotted : ∀ segment ∈ path.splitOn '.', '.' ∉ segment := by
      intro segment member
      exact Text.not_mem_of_mem_splitOn member
    have listed := mem_reachable_of_leads leads undotted []
    rw [List.nil_append, join, List.intercalate_splitOn] at listed
    exact listed

/-- Whether a summary lists a path among those to byte strings, apart from the metadata. -/
def ListsData (object : Object κ) (path : Text) : Prop :=
  object.summarize.containsData path = true ∧ path ≠ metadataName

theorem containsObject_iff {object : Object κ} {path : Text} :
    object.summarize.containsObject path = true ↔
      ∃ nested, (path, .object nested) ∈ object.reachable [] := by
  unfold Summary.containsObject summarize
  simp only [OrderedSet.contains_ofList, List.mem_map, List.mem_filter]
  constructor
  · rintro ⟨⟨path, node⟩, ⟨member, isObject⟩, rfl⟩
    cases node with
    | data entry => cases isObject
    | object nested => exact ⟨nested, member⟩
  · rintro ⟨nested, member⟩
    exact ⟨(path, .object nested), ⟨member, rfl⟩, rfl⟩

theorem containsData_iff {object : Object κ} {path : Text} :
    object.summarize.containsData path = true ↔
      (object.hasMetadata = true ∧ path = metadataName) ∨
        ∃ entry, (path, .data entry) ∈ object.reachable [] := by
  unfold Summary.containsData summarize
  simp only [OrderedSet.contains_ofList, List.mem_append, List.mem_map, List.mem_filter]
  apply or_congr
  · split
    · next reserved => simp [reserved]
    · next absent => simp [absent]
  · constructor
    · rintro ⟨⟨path, node⟩, ⟨member, isData⟩, rfl⟩
      cases node with
      | data entry => exact ⟨entry, member⟩
      | object nested => cases isData
    · rintro ⟨entry, member⟩
      exact ⟨(path, .data entry), ⟨member, rfl⟩, rfl⟩

theorem listsData_iff {object : Object κ} {path : Text} :
    object.ListsData path ↔
      (∃ entry, (path, .data entry) ∈ object.reachable []) ∧ path ≠ metadataName := by
  rw [ListsData, containsData_iff]
  apply and_congr_left
  intro notMetadata
  apply or_iff_right
  intro reserved
  exact notMetadata reserved.2

end YulTree.Object

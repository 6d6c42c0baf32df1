import YulTree.Proofs.Object.Assembled

/-!
# Passages through a tree

A row of names leads from an object through the objects that it names, and a row of slots belongs
to it.  Following a row of names takes the passage as far as it goes (`follow_append`), and every
row of names passes, runs into a byte string or misses a child (`passage_cases`).
-/

namespace YulTree.Object

variable {κ : Type}

/-- A row of names leads from an object to another, and this is the row of slots on the way. -/
inductive Passes : List Text → List Nat → Object κ → Object κ → Prop where
  | here (object : Object κ) : Passes [] [] object object
  | deeper {segments : List Text} {slots : List Nat} {slot : Nat}
      {object nested target : Object κ} :
      object.childAt? slot = some (.object nested) → Passes segments slots nested target →
        Passes (nested.name :: segments) (slot :: slots) object target

/-- A row of names ends at a byte string. -/
def ReachesData (segments : List Text) (object : Object κ) : Prop :=
  ∃ front slots here entry, segments = front ++ [entry.name] ∧ Passes front slots object here ∧
    .data entry ∈ here.children

/-- The first name of a row that is empty, or that no child of the object reached so far has. -/
def Misses (segments : List Text) (object : Object κ) (segment : Text) : Prop :=
  ∃ front rest slots here, segments = front ++ segment :: rest ∧
    Passes front slots object here ∧ (segment = [] ∨ here.child? segment = none)

theorem descend?_cons {object nested : Object κ} {slot : Nat}
    (placed : object.childAt? slot = some (.object nested)) (path : List Nat) :
    object.descend? (slot :: path) = nested.descend? path := by
  rw [descend?, placed]

section

variable {segments : List Text} {slots : List Nat} {object target : Object κ}

theorem Passes.length_eq (passes : Passes segments slots object target) :
    slots.length = segments.length := by
  induction passes with
  | here object => rfl
  | deeper placed passes lengthEq => rw [List.length_cons, lengthEq, List.length_cons]

theorem Passes.descend?_eq (passes : Passes segments slots object target) :
    object.descend? slots = some target := by
  induction passes with
  | here object => rfl
  | deeper placed passes descends => rw [descend?_cons placed, descends]

/-- Every slot of a passage leads to the object with the name at its place. -/
theorem Passes.name_eq (passes : Passes segments slots object target) {count : Nat}
    {segment : Text} (isSegment : segments[count]? = some segment) :
    ∃ reached, object.descend? (slots.take (count + 1)) = some reached ∧
      reached.name = segment := by
  induction passes generalizing count with
  | here object => cases isSegment
  | @deeper segments slots slot object nested target placed passes inductionHypothesis =>
      cases count with
      | zero =>
          cases isSegment
          refine ⟨nested, ?_, rfl⟩
          exact descend?_cons placed []
      | succ count =>
          obtain ⟨reached, descends, nameEq⟩ := inductionHypothesis isSegment
          refine ⟨reached, ?_, nameEq⟩
          rw [List.take_succ_cons, descend?_cons placed, descends]

theorem ReachesData.exists_last (reaches : ReachesData segments object) :
    ∃ segment, segments.getLast? = some segment := by
  obtain ⟨front, slots, here, entry, rfl, -⟩ := reaches
  exact ⟨entry.name, List.getLast?_concat⟩

theorem Passes.allAssembled (passes : Passes segments slots object target)
    (all : object.AllAssembled) : target.AllAssembled :=
  all.descend? passes.descend?_eq

end

theorem AllAssembled.namesFit {object : Object κ} (all : object.AllAssembled) :
    NamesFit object.name object.childNames := by
  obtain ⟨nodes, assembled⟩ := all object (.itself object)
  exact namesFit_of_assembled assembled

theorem AllAssembled.name_ne_nil {object : Object κ} (all : object.AllAssembled) {node : Node κ}
    (member : node ∈ object.children) : node.name ≠ [] := by
  intro nameless
  apply all.namesFit.named
  rw [← nameless]
  exact List.mem_map_of_mem member

theorem AllAssembled.name_ne {object : Object κ} (all : object.AllAssembled) {node : Node κ}
    (member : node ∈ object.children) : node.name ≠ object.name := by
  intro shadows
  apply all.namesFit.unshadowed
  rw [← shadows]
  exact List.mem_map_of_mem member

theorem AllAssembled.entry?_eq {object : Object κ} (all : object.AllAssembled) {node : Node κ}
    {slot : Nat} (placed : object.childAt? slot = some node) :
    object.entry? node.name = some (node, slot) :=
  (entry?_eq_some_iff all.namesFit.distinct).mpr ⟨placed, rfl⟩

section

variable {object here : Object κ} {path : Text}

/-- Names are followed along a passage, and then on from where it ends: each object on the way is
entered by its name, which no other child has. -/
theorem follow_append {front : List Text} {slots : List Nat} (all : object.AllAssembled)
    (passes : Passes front slots object here) (rest : List Text) :
    follow path (front ++ rest) object = (follow path rest here).map (slots ++ ·) := by
  induction passes with
  | here object =>
      rw [List.nil_append]
      cases follow path rest object <;> rfl
  | @deeper segments slots slot object nested target placed passes inductionHypothesis =>
      have member : .object nested ∈ object.children := mem_children_iff.mpr ⟨slot, placed⟩
      have named : nested.name ≠ [] := all.name_ne_nil member
      have entered : object.entry? nested.name = some (.object nested, slot) :=
        all.entry?_eq placed
      have nestedAll := (allAssembled_iff.mp all).2 nested member
      rw [List.cons_append, follow, if_neg named, entered]
      simp only
      rw [inductionHypothesis nestedAll]
      cases follow path rest target <;> rfl

theorem follow_of_passes {segments : List Text} {slots : List Nat} (all : object.AllAssembled)
    (passes : Passes segments slots object here) :
    follow path segments object = .ok slots := by
  have followed : follow path (segments ++ []) object = (follow path [] here).map (slots ++ ·) :=
    follow_append all passes []
  rw [List.append_nil] at followed
  rw [followed, follow, Except.map, List.append_nil]

theorem follow_of_data {front rest : List Text} {slots : List Nat} {entry : Data}
    (all : object.AllAssembled) (passes : Passes front slots object here)
    (member : .data entry ∈ here.children) :
    follow path (front ++ entry.name :: rest) object =
      .error (if rest = [] then .toData path else .throughData path entry.name) := by
  have hereAll := passes.allAssembled all
  obtain ⟨slot, placed⟩ := mem_children_iff.mp member
  have named : entry.name ≠ [] := hereAll.name_ne_nil member
  have entered : here.entry? entry.name = some (.data entry, slot) := hereAll.entry?_eq placed
  rw [follow_append all passes, follow, if_neg named, entered]
  by_cases last : rest = []
  · simp [last, Except.map]
  · simp [last, Except.map]

theorem follow_of_reachesData {segments : List Text} (all : object.AllAssembled)
    (reaches : ReachesData segments object) :
    follow path segments object = .error (.toData path) := by
  obtain ⟨front, slots, here, entry, rfl, passes, member⟩ := reaches
  rw [follow_of_data all passes member, if_pos rfl]

theorem follow_of_through {front rest : List Text} {segment : Text} (all : object.AllAssembled)
    (reaches : ReachesData front object) (isLast : front.getLast? = some segment)
    (more : rest ≠ []) :
    follow path (front ++ rest) object = .error (.throughData path segment) := by
  obtain ⟨front, slots, here, entry, rfl, passes, member⟩ := reaches
  rw [List.getLast?_concat] at isLast
  cases isLast
  rw [List.append_assoc, List.singleton_append, follow_of_data all passes member, if_neg more]

theorem follow_of_misses {segments : List Text} {segment : Text} (all : object.AllAssembled)
    (misses : Misses segments object segment) :
    follow path segments object = .error (.unresolved path segment) := by
  obtain ⟨front, rest, slots, here, rfl, passes, missing⟩ := misses
  rw [follow_append all passes, follow]
  by_cases empty : segment = []
  · rw [if_pos empty]
    rfl
  · have unfound : here.entry? segment = none := by
      rw [child?_eq_map_entry] at missing
      exact Option.map_eq_none_iff.mp (missing.resolve_left empty)
    rw [if_neg empty, unfound]
    rfl

/-- A row of names passes, or it ends at or goes through a byte string, or it misses a child. -/
theorem passage_cases (segments : List Text) (object : Object κ) :
    (∃ slots target, Passes segments slots object target) ∨
    (∃ front rest, segments = front ++ rest ∧ ReachesData front object) ∨
    (∃ segment, Misses segments object segment) := by
  induction segments generalizing object with
  | nil => exact .inl ⟨[], object, .here object⟩
  | cons segment rest inductionHypothesis =>
      cases found : object.child? segment with
      | none => exact .inr (.inr ⟨segment, [], rest, [], object, rfl, .here object, .inr found⟩)
      | some node =>
          have member : node ∈ object.children := List.mem_of_find?_eq_some found
          have isNamed : node.name = segment := by simpa using List.find?_some found
          subst isNamed
          cases node with
          | data entry =>
              exact .inr (.inl
                ⟨[entry.name], rest, rfl, [], [], object, entry, rfl, .here object, member⟩)
          | object nested =>
              obtain ⟨slot, placed⟩ := mem_children_iff.mp member
              rcases inductionHypothesis nested with
                ⟨slots, target, passes⟩ | ⟨front, back, rfl, front', slots, here, entry, rfl,
                  passes, data⟩ | ⟨missed, front, back, slots, here, rfl, passes, missing⟩
              · exact .inl ⟨slot :: slots, target, .deeper placed passes⟩
              · exact .inr (.inl
                  ⟨nested.name :: (front' ++ [entry.name]), back, rfl, nested.name :: front',
                    slot :: slots, here, entry, rfl, .deeper placed passes, data⟩)
              · exact .inr (.inr
                  ⟨missed, nested.name :: front, back, slot :: slots, here, rfl,
                    .deeper placed passes, missing⟩)

inductive Outcome (path : Text) (segments : List Text) (object : Object κ) :
    Except PathError (List Nat) → Prop where
  | passes {slots : List Nat} {target : Object κ} :
      Passes segments slots object target → Outcome path segments object (.ok slots)
  | toData :
      ReachesData segments object → Outcome path segments object (.error (.toData path))
  | throughData {front rest : List Text} {segment : Text} :
      segments = front ++ rest → rest ≠ [] → ReachesData front object →
        front.getLast? = some segment →
        Outcome path segments object (.error (.throughData path segment))
  | unresolved {segment : Text} :
      Misses segments object segment →
        Outcome path segments object (.error (.unresolved path segment))

theorem outcome_ok_iff {segments : List Text} {slots : List Nat} :
    Outcome path segments object (.ok slots) ↔ ∃ target, Passes segments slots object target := by
  constructor
  · intro outcome
    cases outcome with
    | passes passes => exact ⟨_, passes⟩
  · rintro ⟨target, passes⟩
    exact .passes passes

theorem outcome_toData_iff {segments : List Text} {shown : Text} :
    Outcome path segments object (.error (.toData shown)) ↔
      shown = path ∧ ReachesData segments object := by
  constructor
  · intro outcome
    cases outcome with
    | toData reaches => exact ⟨rfl, reaches⟩
  · rintro ⟨rfl, reaches⟩
    exact .toData reaches

theorem outcome_throughData_iff {segments : List Text} {shown segment : Text} :
    Outcome path segments object (.error (.throughData shown segment)) ↔
      shown = path ∧ ∃ front rest, segments = front ++ rest ∧ rest ≠ [] ∧
        ReachesData front object ∧ front.getLast? = some segment := by
  constructor
  · intro outcome
    cases outcome with
    | throughData cut more reaches isLast => exact ⟨rfl, _, _, cut, more, reaches, isLast⟩
  · rintro ⟨rfl, front, rest, cut, more, reaches, isLast⟩
    exact .throughData cut more reaches isLast

theorem outcome_unresolved_iff {segments : List Text} {shown segment : Text} :
    Outcome path segments object (.error (.unresolved shown segment)) ↔
      shown = path ∧ Misses segments object segment := by
  constructor
  · intro outcome
    cases outcome with
    | unresolved misses => exact ⟨rfl, misses⟩
  · rintro ⟨rfl, misses⟩
    exact .unresolved misses

theorem exists_outcome (path : Text) (segments : List Text) (object : Object κ) :
    ∃ result, Outcome path segments object result := by
  rcases passage_cases segments object with
    ⟨slots, target, passes⟩ | ⟨front, rest, cut, reaches⟩ | ⟨segment, misses⟩
  · exact ⟨.ok slots, .passes passes⟩
  · by_cases last : rest = []
    · subst last
      rw [List.append_nil] at cut
      subst cut
      exact ⟨.error (.toData path), .toData reaches⟩
    · obtain ⟨segment, isLast⟩ := reaches.exists_last
      exact ⟨.error (.throughData path segment), .throughData cut last reaches isLast⟩
  · exact ⟨.error (.unresolved path segment), .unresolved misses⟩

/-- Names are followed exactly to the outcome that there is a reason for. -/
theorem follow_eq_iff {segments : List Text} {result : Except PathError (List Nat)}
    (all : object.AllAssembled) :
    follow path segments object = result ↔ Outcome path segments object result := by
  have follow_of_outcome : ∀ {result}, Outcome path segments object result →
      follow path segments object = result := by
    intro result outcome
    cases outcome with
    | passes passes => exact follow_of_passes all passes
    | toData reaches => exact follow_of_reachesData all reaches
    | throughData cut more reaches isLast =>
        subst cut
        exact follow_of_through all reaches isLast more
    | unresolved misses => exact follow_of_misses all misses
  constructor
  · rintro rfl
    obtain ⟨result, outcome⟩ := exists_outcome path segments object
    rw [follow_of_outcome outcome]
    exact outcome
  · exact follow_of_outcome

end

end YulTree.Object

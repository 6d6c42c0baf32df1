import YulTree.Proofs.Object.Resolution

/-!
# Summaries as an index

A summary names each node that undotted names lead to by a path of its own (`Finds.unique`), and
behind the path to an object it lists what the summary of that object lists (`indexed_of_run`).
-/

namespace YulTree.Object

variable {κ : Type}

/-- Undotted names lead from an object to the node at a row of slots, and this is the path that
they make up.  Two nodes are the same if their slots are, whatever they hold. -/
inductive Finds : List Nat → Text → Object κ → Node κ → Prop where
  | child {slot : Nat} {object : Object κ} {node : Node κ} :
      object.childAt? slot = some node → '.' ∉ node.name →
        Finds [slot] node.name object node
  | deeper {slot : Nat} {slots : List Nat} {path : Text} {object nested : Object κ}
      {node : Node κ} :
      object.childAt? slot = some (.object nested) → '.' ∉ nested.name →
        Finds slots path nested node →
        Finds (slot :: slots) (nested.name ++ '.' :: path) object node

section

variable {slots : List Nat} {path rest name : Text} {object here : Object κ} {node : Node κ}

/-- A path without a dot leads to a child. -/
theorem finds_undotted_iff (undotted : '.' ∉ name) :
    Finds slots name object node ↔
      ∃ slot, slots = [slot] ∧ object.childAt? slot = some node ∧ node.name = name := by
  constructor
  · intro finds
    cases finds with
    | child placed _ => exact ⟨_, rfl, placed, rfl⟩
    | deeper placed _ below =>
        refine absurd ?_ undotted
        exact List.mem_append_right _ List.mem_cons_self
  · rintro ⟨slot, rfl, placed, rfl⟩
    exact .child placed undotted

/-- A path leads through the child object that its first name is the name of. -/
theorem finds_dotted_iff (undotted : '.' ∉ name) :
    Finds slots (name ++ '.' :: rest) object node ↔
      ∃ slot below nested, slots = slot :: below ∧
        object.childAt? slot = some (.object nested) ∧ nested.name = name ∧
        Finds below rest nested node := by
  constructor
  · intro finds
    generalize whole : name ++ '.' :: rest = path at finds
    cases finds with
    | child placed nodeUndotted =>
        refine absurd ?_ nodeUndotted
        rw [← whole]
        exact List.mem_append_right _ List.mem_cons_self
    | deeper placed nestedUndotted below =>
        obtain ⟨sameName, sameRest⟩ := (Text.append_mark_inj undotted nestedUndotted).mp whole
        subst sameName sameRest
        exact ⟨_, _, _, rfl, placed, rfl, below⟩
  · rintro ⟨slot, below, nested, rfl, placed, rfl, finds⟩
    exact .deeper placed undotted finds

/-- The listed nodes are those that undotted names lead to. -/
theorem mem_reachable_iff_finds :
    (path, node) ∈ object.reachable [] ↔ ∃ slots, Finds slots path object node := by
  constructor
  · intro member
    obtain ⟨segments, leads, undotted, whole⟩ := exists_leads_of_mem_reachable object [] member
    rw [List.nil_append] at whole
    subst whole
    clear member
    induction leads with
    | @child object node member =>
        obtain ⟨slot, placed⟩ := mem_children_iff.mp member
        rw [join, List.intercalate_singleton]
        exact ⟨[slot], .child placed (List.forall_mem_cons.mp undotted).1⟩
    | @deeper segments object nested node member leads inductionHypothesis =>
        obtain ⟨nameUndotted, restUndotted⟩ := List.forall_mem_cons.mp undotted
        obtain ⟨slot, placed⟩ := mem_children_iff.mp member
        obtain ⟨slots, finds⟩ := inductionHypothesis restUndotted
        have whole : join (nested.name :: segments) = nested.name ++ '.' :: join segments := by
          rw [join, List.intercalate_cons_of_ne_nil leads.ne_nil, List.append_assoc]
          rfl
        rw [whole]
        exact ⟨slot :: slots, .deeper placed nameUndotted finds⟩
  · intro found
    obtain ⟨slots, finds⟩ := found
    rw [mem_reachable_iff]
    induction finds with
    | child placed undotted =>
        rw [List.splitOn_eq_singleton undotted]
        exact .child (mem_children_iff.mpr ⟨_, placed⟩)
    | deeper placed undotted finds inductionHypothesis =>
        rw [List.splitOn_append_cons_self_of_not_mem undotted]
        exact .deeper (mem_children_iff.mpr ⟨_, placed⟩) inductionHypothesis

theorem Finds.append {more : List Nat} (finds : Finds slots path object (.object here))
    (below : Finds more rest here node) :
    Finds (slots ++ more) (path ++ '.' :: rest) object node := by
  generalize reached : Node.object here = target at finds
  induction finds with
  | child placed undotted =>
      subst reached
      exact .deeper placed undotted below
  | deeper placed undotted finds inductionHypothesis =>
      rw [List.append_assoc, List.cons_append]
      exact .deeper placed undotted (inductionHypothesis reached)

/-- A path that ends before a dot of another one leads to an object on the way. -/
theorem Finds.exists_object (finds : Finds slots (path ++ '.' :: rest) object node) :
    ∃ front here, Finds front path object (.object here) := by
  generalize whole : path ++ '.' :: rest = longer at finds
  induction finds generalizing path with
  | child placed undotted =>
      refine absurd ?_ undotted
      rw [← whole]
      exact List.mem_append_right _ List.mem_cons_self
  | @deeper slot slots below object nested node placed undotted finds inductionHypothesis =>
      by_cases dotted : '.' ∈ path
      · obtain ⟨name, back, cut, nameUndotted⟩ := List.eq_append_cons_of_mem dotted
        subst cut
        rw [List.append_assoc, List.cons_append] at whole
        obtain ⟨sameName, sameRest⟩ := (Text.append_mark_inj nameUndotted undotted).mp whole
        subst sameName
        obtain ⟨front, here, reached⟩ := inductionHypothesis sameRest
        exact ⟨slot :: front, here, .deeper placed undotted reached⟩
      · obtain ⟨sameName, -⟩ := (Text.append_mark_inj dotted undotted).mp whole
        subst sameName
        exact ⟨[slot], nested, .child placed undotted⟩

/-- A name stands for one child only. -/
theorem AllAssembled.child_unique {slot place : Nat} {other : Node κ}
    (all : object.AllAssembled) (placed : object.childAt? slot = some node)
    (otherPlaced : object.childAt? place = some other) (sameName : other.name = node.name) :
    slot = place ∧ node = other := by
  have sameSlot : slot = place :=
    slot_eq_of_name_eq all.namesFit.distinct placed otherPlaced sameName.symm
  subst sameSlot
  rw [placed] at otherPlaced
  exact ⟨rfl, Option.some.inj otherPlaced⟩

theorem AllAssembled.nested {slot : Nat} {nested : Object κ} (all : object.AllAssembled)
    (placed : object.childAt? slot = some (.object nested)) : nested.AllAssembled :=
  (allAssembled_iff.mp all).2 nested (mem_children_iff.mpr ⟨slot, placed⟩)

/-- A path leads to one node only. -/
theorem Finds.unique {others : List Nat} {other : Node κ} (all : object.AllAssembled)
    (finds : Finds slots path object node) (otherFinds : Finds others path object other) :
    slots = others ∧ node = other := by
  induction finds generalizing others with
  | child placed undotted =>
      obtain ⟨place, rfl, otherPlaced, sameName⟩ := (finds_undotted_iff undotted).mp otherFinds
      have same := all.child_unique placed otherPlaced sameName
      exact ⟨congrArg ([·]) same.1, same.2⟩
  | @deeper slot slots path object nested node placed undotted finds inductionHypothesis =>
      obtain ⟨place, below, inner, rfl, otherPlaced, sameName, otherBelow⟩ :=
        (finds_dotted_iff undotted).mp otherFinds
      have same := all.child_unique placed otherPlaced sameName
      cases same.2
      have sameBelow := inductionHypothesis (all.nested placed) otherBelow
      exact ⟨List.cons_eq_cons.mpr ⟨same.1, sameBelow.1⟩, sameBelow.2⟩

theorem Finds.allAssembled (all : object.AllAssembled)
    (finds : Finds slots path object (.object here)) : here.AllAssembled := by
  generalize target : Node.object here = last at finds
  induction finds with
  | child placed undotted =>
      subst target
      exact all.nested placed
  | deeper placed undotted finds inductionHypothesis =>
      exact inductionHypothesis (all.nested placed) target

/-- What lies behind the path to an object is what lies below that object, since the way to the
object is the front of every way behind it. -/
theorem Finds.behind_iff (all : object.AllAssembled)
    (finds : Finds slots path object (.object here)) :
    (∃ longer, Finds longer (path ++ '.' :: rest) object node) ↔
      ∃ more, Finds more rest here node := by
  constructor
  · intro found
    obtain ⟨longer, reached⟩ := found
    generalize target : Node.object here = last at finds
    induction finds generalizing longer with
    | child placed undotted =>
        subst target
        obtain ⟨place, below, inner, -, otherPlaced, sameName, otherBelow⟩ :=
          (finds_dotted_iff undotted).mp reached
        cases (all.child_unique placed otherPlaced sameName).2
        exact ⟨below, otherBelow⟩
    | deeper placed undotted finds inductionHypothesis =>
        rw [List.append_assoc, List.cons_append] at reached
        obtain ⟨place, below, inner, -, otherPlaced, sameName, otherBelow⟩ :=
          (finds_dotted_iff undotted).mp reached
        cases (all.child_unique placed otherPlaced sameName).2
        exact inductionHypothesis (all.nested placed) below otherBelow target
  · intro found
    obtain ⟨more, below⟩ := found
    exact ⟨slots ++ more, finds.append below⟩

theorem append_ne_metadataName (named : name ≠ []) (undotted : '.' ∉ name) (more : Text) :
    name ++ more ≠ metadataName := by
  intro reserved
  cases name with
  | nil => exact named rfl
  | cons first others =>
      have dot : first = '.' := (List.cons.inj reserved).1
      subst dot
      exact undotted List.mem_cons_self

/-- No path begins as the reserved name does, with a dot, since every child has a name. -/
theorem Finds.append_ne_metadataName (all : object.AllAssembled)
    (finds : Finds slots path object node) (more : Text) : path ++ more ≠ metadataName := by
  cases finds with
  | child placed undotted =>
      have named := all.name_ne_nil (mem_children_iff.mpr ⟨_, placed⟩)
      exact Object.append_ne_metadataName named undotted more
  | deeper placed undotted below =>
      have named := all.name_ne_nil (mem_children_iff.mpr ⟨_, placed⟩)
      rw [List.append_assoc]
      exact Object.append_ne_metadataName named undotted _

theorem Finds.ne_metadataName (all : object.AllAssembled)
    (finds : Finds slots path object node) : path ≠ metadataName := by
  have notReserved := finds.append_ne_metadataName all []
  rw [List.append_nil] at notReserved
  exact notReserved

end

/-! ## Summaries -/

section

variable {slots : List Nat} {object nested : Object κ} {path name : Text}

theorem containsObject_iff_finds :
    object.summarize.containsObject path = true ↔
      ∃ nested slots, Finds slots path object (.object nested) := by
  rw [containsObject_iff]
  simp only [mem_reachable_iff_finds]

theorem hasMetadata_iff (all : object.AllAssembled) :
    object.hasMetadata = true ↔
      ∃ entry, .data entry ∈ object.children ∧ entry.name = metadataName := by
  have isChild : ∀ node, object.child? metadataName = some node ↔
      node ∈ object.children ∧ node.name = metadataName := by
    intro node
    exact child?_eq_some_iff all.namesFit.distinct
  rw [hasMetadata, Option.isSome_iff_exists]
  constructor
  · intro found
    obtain ⟨entry, found⟩ := found
    obtain ⟨node, isNamed, isData⟩ := Option.bind_eq_some_iff.mp found
    cases node with
    | data other =>
        cases isData
        exact ⟨entry, (isChild _).mp isNamed⟩
    | object nested => cases isData
  · intro found
    obtain ⟨entry, member⟩ := found
    exact ⟨entry, Option.bind_eq_some_iff.mpr ⟨.data entry, (isChild _).mpr member, rfl⟩⟩

theorem containsData_iff_finds (all : object.AllAssembled) :
    object.summarize.containsData path = true ↔
      (∃ entry slots, Finds slots path object (.data entry)) ∨
        path = metadataName ∧
          ∃ entry, .data entry ∈ object.children ∧ entry.name = metadataName := by
  rw [containsData_iff, hasMetadata_iff all, or_comm, and_comm]
  simp only [mem_reachable_iff_finds]

/-- Apart from the object's own metadata the listed byte strings are those that names lead to. -/
theorem listsData_iff_finds (all : object.AllAssembled) :
    object.ListsData path ↔ ∃ entry slots, Finds slots path object (.data entry) := by
  rw [listsData_iff]
  simp only [mem_reachable_iff_finds]
  apply and_iff_left_of_imp
  intro found
  obtain ⟨entry, slots, finds⟩ := found
  exact finds.ne_metadataName all

/-- A path is listed for an object or for a byte string, never for both. -/
theorem containsData_eq_false (all : object.AllAssembled)
    (listed : object.summarize.containsObject path = true) :
    object.summarize.containsData path = false := by
  obtain ⟨nested, slots, finds⟩ := containsObject_iff_finds.mp listed
  rw [Bool.eq_false_iff]
  intro isData
  obtain ⟨entry, others, otherFinds⟩ :=
    (listsData_iff_finds all).mp ⟨isData, finds.ne_metadataName all⟩
  cases (finds.unique all otherFinds).2

theorem containsObject_front {front rest : Text} (all : object.AllAssembled)
    (listed : object.summarize.contains (front ++ '.' :: rest) = true)
    (notMetadata : front ++ '.' :: rest ≠ metadataName) :
    object.summarize.containsObject front = true := by
  have reached : ∃ node slots, Finds slots (front ++ '.' :: rest) object node := by
    rcases Bool.or_eq_true_iff.mp listed with isObject | isData
    · obtain ⟨nested, found⟩ := containsObject_iff_finds.mp isObject
      exact ⟨.object nested, found⟩
    · obtain ⟨entry, found⟩ := (listsData_iff_finds all).mp ⟨isData, notMetadata⟩
      exact ⟨.data entry, found⟩
  obtain ⟨node, slots, finds⟩ := reached
  obtain ⟨before, here, frontFinds⟩ := finds.exists_object
  exact containsObject_iff_finds.mpr ⟨here, before, frontFinds⟩

/-- The first names of the listed paths to objects are the undotted names of child objects. -/
theorem topLevelNames_contains_iff :
    object.summarize.topLevelNames.contains name = true ↔
      '.' ∉ name ∧ ∃ nested, .object nested ∈ object.children ∧ nested.name = name := by
  rw [Summary.topLevelNames, OrderedSet.contains_ofList, List.mem_map]
  constructor
  · intro listed
    obtain ⟨path, isKey, rfl⟩ := listed
    have isObject : object.summarize.containsObject path = true := OrderedMap.mem_keys_iff.mp isKey
    obtain ⟨nested, slots, finds⟩ := containsObject_iff_finds.mp isObject
    cases finds with
    | child placed undotted =>
        rw [List.splitOn_eq_singleton undotted]
        exact ⟨undotted, nested, mem_children_iff.mpr ⟨_, placed⟩, rfl⟩
    | deeper placed undotted below =>
        rw [List.splitOn_append_cons_self_of_not_mem undotted]
        exact ⟨undotted, _, mem_children_iff.mpr ⟨_, placed⟩, rfl⟩
  · intro named
    obtain ⟨undotted, nested, member, rfl⟩ := named
    obtain ⟨slot, placed⟩ := mem_children_iff.mp member
    refine ⟨nested.name, OrderedMap.mem_keys_iff.mpr ?_, ?_⟩
    · exact containsObject_iff_finds.mpr ⟨nested, [slot], .child placed undotted⟩
    · rw [List.splitOn_eq_singleton undotted, List.headD_cons]

theorem containsObject_behind (all : object.AllAssembled)
    (finds : Finds slots path object (.object nested)) (rest : Text) :
    object.summarize.containsObject (path ++ '.' :: rest) = true ↔
      nested.summarize.containsObject rest = true := by
  rw [containsObject_iff_finds, containsObject_iff_finds]
  apply exists_congr
  intro inner
  exact finds.behind_iff all

theorem containsData_behind (all : object.AllAssembled)
    (finds : Finds slots path object (.object nested)) (rest : Text) :
    object.summarize.containsData (path ++ '.' :: rest) = true ↔ nested.ListsData rest := by
  have whole : object.ListsData (path ++ '.' :: rest) ↔
      object.summarize.containsData (path ++ '.' :: rest) = true :=
    and_iff_left (finds.append_ne_metadataName all _)
  rw [← whole, listsData_iff_finds all, listsData_iff_finds (finds.allAssembled all)]
  apply exists_congr
  intro entry
  exact finds.behind_iff all

end

/-- The summary of an object tells the nodes below it apart, and behind the path to an object it
goes on as the summary of that object does. -/
structure Indexed (object : Object κ) : Prop where
  injective : ∀ {path slots others node other}, Finds slots path object node →
    Finds others path object other → slots = others ∧ node = other
  objects : ∀ path, object.summarize.containsObject path = true ↔
    ∃ nested slots, Finds slots path object (.object nested)
  data : ∀ path, object.summarize.containsData path = true ↔
    (∃ entry slots, Finds slots path object (.data entry)) ∨
      path = metadataName ∧ ∃ entry, .data entry ∈ object.children ∧ entry.name = metadataName
  disjoint : ∀ path, object.summarize.containsObject path = true →
    object.summarize.containsData path = false
  fronts : ∀ front rest, object.summarize.contains (front ++ '.' :: rest) = true →
    front ++ '.' :: rest ≠ metadataName → object.summarize.containsObject front = true
  topLevel : ∀ name, object.summarize.topLevelNames.contains name = true ↔
    '.' ∉ name ∧ ∃ nested, .object nested ∈ object.children ∧ nested.name = name
  objectsBehind : ∀ {slots path nested}, Finds slots path object (.object nested) → ∀ rest,
    object.summarize.containsObject (path ++ '.' :: rest) = true ↔
      nested.summarize.containsObject rest = true
  dataBehind : ∀ {slots path nested}, Finds slots path object (.object nested) → ∀ rest,
    object.summarize.containsData (path ++ '.' :: rest) = true ↔
      nested.summarize.containsData rest = true ∧ rest ≠ metadataName

/-- The summary of every object that a program holds is an index of the nodes below it. -/
theorem indexed_of_run {actions : List (Action κ)} {handle : Nat} {object : Object κ}
    (held : Store.run .empty actions handle = some object) : object.Indexed := by
  have all := Store.allAssembled_run_empty actions handle object held
  constructor
  · intro path slots others node other finds otherFinds
    exact finds.unique all otherFinds
  · intro path
    exact containsObject_iff_finds
  · intro path
    exact containsData_iff_finds all
  · intro path listed
    exact containsData_eq_false all listed
  · intro front rest listed notMetadata
    exact containsObject_front all listed notMetadata
  · intro name
    exact topLevelNames_contains_iff
  · intro slots path nested finds rest
    exact containsObject_behind all finds rest
  · intro slots path nested finds rest
    exact containsData_behind all finds rest

/-- An object with metadata at two levels, and with a child that has the path of a grandchild for
its name. -/
def shelved : Object Unit :=
  { new "A" with
    children :=
      [.data ⟨metadataName, [1]⟩,
        .object { new "B" with
          slot := some 1
          children :=
            [.data ⟨metadataName, [2]⟩,
              .object { new "C" with
                slot := some 1
                children := [.data ⟨"d", [3]⟩] }] },
        .object { new "B.C" with
          slot := some 2
          children := [.data ⟨"e", [4]⟩] }] }

def shelving : List (Action Unit) :=
  [.create 0 "A", .create 1 "B", .create 2 "C", .create 3 "B.C",
    .attachData 0 ⟨metadataName, [1]⟩, .attachData 1 ⟨metadataName, [2]⟩,
    .attachData 2 ⟨"d", [3]⟩, .attachData 3 ⟨"e", [4]⟩, .attachObject 1 2, .attachObject 0 1,
    .attachObject 0 3]

theorem indexed_of_run_shelved :
    Store.run .empty shelving 0 = some shelved ∧ shelved.Indexed ∧
      shelved.summarize.objectPaths.keys = [("B" : Text), "B.C"] ∧
      shelved.summarize.dataPaths.keys = [metadataName, "B.C.d"] := by
  have held : Store.run .empty shelving 0 = some shelved := rfl
  refine ⟨held, indexed_of_run held, ?_, ?_⟩
  · decide
  · decide

end YulTree.Object

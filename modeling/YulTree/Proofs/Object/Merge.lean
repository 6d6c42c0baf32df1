import YulTree.Object.SourceIndex
import YulTree.Proofs.Object.Passage

/-!
# Merged tables

The tables of a tree are merged name by name, and of the indices that a name is given on the way
through the tree the first one counts (`collectSources_first`).
-/

namespace YulTree

namespace OrderedMap

variable {κ ν : Type} [OrderedKey κ]

theorem size_eq (table : OrderedMap κ ν) : table.size = table.keys.length :=
  (List.length_map Prod.fst).symm

/-- A new entry is seen only where there was none. -/
theorem get?_insertIfNew [DecidableEq κ] (table : OrderedMap κ ν) (key wanted : κ) (value : ν) :
    (table.insertIfNew key value).get? wanted =
      (table.get? wanted).or (if wanted = key then some value else none) := by
  by_cases same : wanted = key
  · subst same
    unfold insertIfNew contains
    cases found : table.get? wanted with
    | none => simp [get?_insert]
    | some old => simp [found]
  · unfold insertIfNew
    split
    · simp
    · simp [get?_insert, same]

end OrderedMap

/-- The indices with those of a row of assignments, of which an earlier one hides a later one of
the same name. -/
def SourceIndices.assign (indices : SourceIndices) (assignments : List (UInt32 × Text)) :
    SourceIndices :=
  assignments.foldl (fun merged entry => merged.insertIfNew entry.2 entry.1) indices

/-- The index that a row of assignments gives a name first. -/
def firstIndex? (name : Text) (assignments : List (UInt32 × Text)) : Option UInt32 :=
  (assignments.find? fun entry => entry.2 == name).map Prod.fst

theorem firstIndex?_cons (name : Text) (entry : UInt32 × Text)
    (rest : List (UInt32 × Text)) :
    firstIndex? name (entry :: rest) =
      (if name = entry.2 then some entry.1 else none).or (firstIndex? name rest) := by
  by_cases same : name = entry.2
  · subst same
    simp [firstIndex?]
  · have other : (entry.2 == name) = false := beq_eq_false_iff_ne.mpr (Ne.symm same)
    simp [firstIndex?, same, other]

theorem isSome_firstIndex?_iff {name : Text} {assignments : List (UInt32 × Text)} :
    (firstIndex? name assignments).isSome = true ↔ ∃ index, (index, name) ∈ assignments := by
  simp [firstIndex?]

theorem firstIndex?_append {name : Text} {front : List (UInt32 × Text)}
    (unassigned : name ∉ front.map Prod.snd) (index : UInt32) (back : List (UInt32 × Text)) :
    firstIndex? name (front ++ (index, name) :: back) = some index := by
  induction front with
  | nil => simp [firstIndex?]
  | cons entry rest inductionHypothesis =>
      rw [List.map_cons, List.mem_cons, not_or] at unassigned
      rw [List.cons_append, firstIndex?_cons, if_neg unassigned.1,
        inductionHypothesis unassigned.2]
      rfl

namespace SourceIndices

/-- Of the indices of a name the one at hand counts, and then the first that is assigned. -/
theorem get?_assign (indices : SourceIndices) (assignments : List (UInt32 × Text))
    (name : Text) :
    (indices.assign assignments).get? name =
      (indices.get? name).or (firstIndex? name assignments) := by
  induction assignments generalizing indices with
  | nil => simp [assign, firstIndex?]
  | cons entry rest inductionHypothesis =>
      have restAssigned := inductionHypothesis (indices.insertIfNew entry.2 entry.1)
      rw [OrderedMap.get?_insertIfNew, Option.or_assoc, ← firstIndex?_cons] at restAssigned
      exact restAssigned

theorem assign_append (indices : SourceIndices) (first second : List (UInt32 × Text)) :
    indices.assign (first ++ second) = (indices.assign first).assign second :=
  List.foldl_append

end SourceIndices

namespace Object

variable {κ : Type}

/-- The entries of an object's own table, by ascending index. -/
def ownAssignments (object : Object κ) : List (UInt32 × Text) :=
  (object.table.map OrderedMap.entries).getD []

def objectsOf (visits : List (Nat × Node κ)) : List (Object κ) :=
  visits.filterMap fun visit => visit.2.object?

theorem objectsOf_data (depth : Nat) (entry : Data) (rest : List (Nat × Node κ)) :
    objectsOf ((depth, .data entry) :: rest) = objectsOf rest := rfl

theorem objectsOf_object (depth : Nat) (nested : Object κ) (rest : List (Nat × Node κ)) :
    objectsOf ((depth, .object nested) :: rest) = nested :: objectsOf rest := rfl

theorem objectsOf_append (first second : List (Nat × Node κ)) :
    objectsOf (first ++ second) = objectsOf first ++ objectsOf second :=
  List.filterMap_append

/-- The entries of all tables of a tree: those of an object stand before those of its children,
and children stand in the order of their slots. -/
def assignments (object : Object κ) : List (UInt32 × Text) :=
  (objectsOf (object.preorder 0)).flatMap ownAssignments

theorem addTable_eq (indices : SourceIndices) (object : Object κ) :
    indices.addTable object.table = indices.assign object.ownAssignments := by
  unfold ownAssignments
  cases object.table with
  | none => rfl
  | some table => rfl

mutual

theorem collectSources_preorder : ∀ (object : Object κ) (indices : SourceIndices) (depth : Nat),
    object.collectSources indices =
      indices.assign ((objectsOf (object.preorder depth)).flatMap ownAssignments)
  | { name, code, analysis, debug, slot, children }, indices, depth => by
      have own := addTable_eq indices (⟨name, code, analysis, debug, slot, children⟩ : Object κ)
      rw [preorder, objectsOf_object, List.flatMap_cons, SourceIndices.assign_append, ← own]
      exact collectSourcesAll_preorder children _ (depth + 1)

theorem collectSourcesAll_preorder : ∀ (children : List (Node κ)) (indices : SourceIndices)
    (depth : Nat),
    collectSourcesAll indices children =
      indices.assign ((objectsOf (preorderAll depth children)).flatMap ownAssignments)
  | [], _, _ => rfl
  | .data entry :: rest, indices, depth => by
      rw [preorderAll, objectsOf_data]
      exact collectSourcesAll_preorder rest indices depth
  | .object nested :: rest, indices, depth => by
      rw [preorderAll, objectsOf_append, List.flatMap_append, SourceIndices.assign_append,
        ← collectSources_preorder nested indices depth]
      exact collectSourcesAll_preorder rest _ depth

end

/-- The tables of a tree are merged entry by entry on the way through it. -/
theorem collectSources_eq (object : Object κ) (indices : SourceIndices) :
    object.collectSources indices = indices.assign object.assignments :=
  collectSources_preorder object indices 0

mutual

/-- The objects on the way through a tree are those that paths of slots lead to. -/
theorem mem_objectsOf_preorder : ∀ (object : Object κ) (depth : Nat) (nested : Object κ),
    nested ∈ objectsOf (object.preorder depth) ↔ ∃ path, object.descend? path = some nested
  | { name, code, analysis, debug, slot, children }, depth, nested => by
      rw [preorder, objectsOf_object, List.mem_cons,
        mem_objectsOf_preorderAll children (depth + 1) nested]
      constructor
      · rintro (rfl | ⟨place, child, path, placed, below⟩)
        · exact ⟨[], rfl⟩
        · have isChild : (⟨name, code, analysis, debug, slot, children⟩ : Object κ).childAt? place =
              some (.object child) := placed
          exact ⟨place :: path, (descend?_cons isChild path).trans below⟩
      · rintro ⟨path, below⟩
        cases path with
        | nil => exact .inl (Option.some.inj below).symm
        | cons place path =>
            rw [descend?] at below
            split at below
            · next child placed => exact .inr ⟨place, child, path, placed, below⟩
            · cases below

theorem mem_objectsOf_preorderAll : ∀ (children : List (Node κ)) (depth : Nat)
    (nested : Object κ),
    nested ∈ objectsOf (preorderAll depth children) ↔
      ∃ (place : Nat) (child : Object κ) (path : List Nat),
        children[place]? = some (.object child) ∧ child.descend? path = some nested
  | [], depth, nested => by simp [preorderAll, objectsOf]
  | .data entry :: rest, depth, nested => by
      rw [preorderAll, objectsOf_data, mem_objectsOf_preorderAll rest depth nested]
      constructor
      · rintro ⟨place, found⟩
        exact ⟨place + 1, found⟩
      · rintro ⟨place, child, path, placed, below⟩
        cases place with
        | zero => cases placed
        | succ place => exact ⟨place, child, path, placed, below⟩
  | .object first :: rest, depth, nested => by
      rw [preorderAll, objectsOf_append, List.mem_append, mem_objectsOf_preorder first depth nested,
        mem_objectsOf_preorderAll rest depth nested]
      constructor
      · rintro (⟨path, below⟩ | ⟨place, found⟩)
        · exact ⟨0, first, path, rfl, below⟩
        · exact ⟨place + 1, found⟩
      · rintro ⟨place, child, path, placed, below⟩
        cases place with
        | zero =>
            obtain rfl := Node.object.inj (Option.some.inj placed)
            exact .inl ⟨path, below⟩
        | succ place => exact .inr ⟨place, child, path, placed, below⟩

end

/-- What is assigned on the way through a tree stands in the table of an object in it. -/
theorem mem_assignments_iff {object : Object κ} {index : UInt32} {name : Text} :
    (index, name) ∈ object.assignments ↔
      ∃ path nested table, object.descend? path = some nested ∧ nested.table = some table ∧
        table.get? index = some name := by
  rw [assignments, List.mem_flatMap]
  constructor
  · rintro ⟨nested, visited, own⟩
    obtain ⟨path, below⟩ := (mem_objectsOf_preorder object 0 nested).mp visited
    unfold ownAssignments at own
    cases found : nested.table with
    | none =>
        rw [found] at own
        cases own
    | some table =>
        rw [found] at own
        exact ⟨path, nested, table, below, found, OrderedMap.get?_eq_some_iff.mpr own⟩
  · rintro ⟨path, nested, table, below, found, listed⟩
    refine ⟨nested, (mem_objectsOf_preorder object 0 nested).mpr ⟨path, below⟩, ?_⟩
    rw [ownAssignments, found]
    exact OrderedMap.get?_eq_some_iff.mp listed

/-! ## Merging twice, and merging two trees -/

theorem get?_collectSources (object : Object κ) (indices : SourceIndices) (name : Text) :
    (object.collectSources indices).get? name =
      (indices.get? name).or (firstIndex? name object.assignments) := by
  rw [collectSources_eq, SourceIndices.get?_assign]

theorem get?_collectSources_empty (object : Object κ) (name : Text) :
    (object.collectSources OrderedMap.empty).get? name =
      firstIndex? name object.assignments := by
  rw [get?_collectSources, OrderedMap.get?_empty, Option.none_or]

/-- What was merged into other indices is found as if it had been merged on its own. -/
theorem get?_collectSources_of_empty (object : Object κ) (indices : SourceIndices)
    (name : Text) :
    (object.collectSources indices).get? name =
      (indices.get? name).or ((object.collectSources OrderedMap.empty).get? name) := by
  rw [get?_collectSources, get?_collectSources_empty]

theorem collectSources_twice (object : Object κ) (indices : SourceIndices) :
    object.collectSources (object.collectSources indices) = object.collectSources indices := by
  refine OrderedMap.ext_get? fun name => ?_
  rw [get?_collectSources, get?_collectSources, Option.or_assoc, Option.or_self]

/-- Trees whose merged tables agree can be merged in either order. -/
theorem collectSources_comm {first second : Object κ}
    (agree : ∀ name index other, (first.collectSources OrderedMap.empty).get? name = some index →
      (second.collectSources OrderedMap.empty).get? name = some other → index = other) :
    second.collectSources (first.collectSources OrderedMap.empty) =
      first.collectSources (second.collectSources OrderedMap.empty) := by
  refine OrderedMap.ext_get? fun name => ?_
  rw [get?_collectSources_of_empty second,
    get?_collectSources_of_empty first (second.collectSources _)]
  have agreed := agree name
  generalize (first.collectSources OrderedMap.empty).get? name = found at agreed ⊢
  generalize (second.collectSources OrderedMap.empty).get? name = other at agreed ⊢
  cases found with
  | none => rw [Option.none_or, Option.or_none]
  | some index =>
      cases other with
      | none => rfl
      | some otherIndex =>
          obtain rfl := agreed index otherIndex rfl rfl
          rfl

theorem mem_keys_collectSources {object : Object κ} {indices : SourceIndices} {name : Text} :
    name ∈ (object.collectSources indices).keys ↔
      name ∈ indices.keys ∨ name ∈ (object.collectSources OrderedMap.empty).keys := by
  simp only [OrderedMap.mem_keys_iff, OrderedMap.contains]
  rw [get?_collectSources_of_empty, Option.isSome_or, Bool.or_eq_true]

/-- Trees that share no name make a table with as many names as both have. -/
theorem size_collectSources {first second : Object κ}
    (disjoint : ∀ name ∈ (first.collectSources OrderedMap.empty).keys,
      name ∉ (second.collectSources OrderedMap.empty).keys) :
    (second.collectSources (first.collectSources OrderedMap.empty)).size =
      (first.collectSources OrderedMap.empty).size +
        (second.collectSources OrderedMap.empty).size := by
  have distinct : ((first.collectSources OrderedMap.empty).keys ++
      (second.collectSources OrderedMap.empty).keys).Nodup := by
    refine List.nodup_append.mpr ⟨OrderedMap.nodup_keys _, OrderedMap.nodup_keys _, ?_⟩
    rintro name inFirst _ inSecond rfl
    exact disjoint name inFirst inSecond
  have sameNames :
      (second.collectSources (first.collectSources OrderedMap.empty)).keys.Perm
        ((first.collectSources OrderedMap.empty).keys ++
          (second.collectSources OrderedMap.empty).keys) := by
    refine (List.perm_ext_iff_of_nodup (OrderedMap.nodup_keys _) distinct).mpr fun name => ?_
    rw [mem_keys_collectSources, List.mem_append]
  rw [OrderedMap.size_eq, sameNames.length_eq, List.length_append, ← OrderedMap.size_eq,
    ← OrderedMap.size_eq]

/-- Names keep the indices that they have.  Any other name gets the index that it is assigned
first on the way through the tree, if it is in a table there.  So a tree that is merged again
changes nothing, trees that agree can be merged in either order, and the names of trees that share
none add up. -/
theorem collectSources_first (object : Object κ) (indices : SourceIndices) :
    (∀ name index, indices.get? name = some index →
      (object.collectSources indices).get? name = some index) ∧
    (∀ name index front back, indices.get? name = none →
      object.assignments = front ++ (index, name) :: back → name ∉ front.map Prod.snd →
      (object.collectSources indices).get? name = some index) ∧
    (∀ name, (object.collectSources indices).contains name = true ↔
      indices.contains name = true ∨
        ∃ path nested table index, object.descend? path = some nested ∧
          nested.table = some table ∧ table.get? index = some name) ∧
    object.collectSources (object.collectSources indices) = object.collectSources indices ∧
    ∀ other : Object κ,
      ((∀ name index otherIndex,
          (object.collectSources OrderedMap.empty).get? name = some index →
          (other.collectSources OrderedMap.empty).get? name = some otherIndex →
          index = otherIndex) →
        other.collectSources (object.collectSources OrderedMap.empty) =
          object.collectSources (other.collectSources OrderedMap.empty)) ∧
      ((∀ name ∈ (object.collectSources OrderedMap.empty).keys,
          name ∉ (other.collectSources OrderedMap.empty).keys) →
        (other.collectSources (object.collectSources OrderedMap.empty)).size =
          (object.collectSources OrderedMap.empty).size +
            (other.collectSources OrderedMap.empty).size) := by
  refine ⟨?_, ?_, ?_, collectSources_twice object indices,
    fun other => ⟨collectSources_comm, size_collectSources⟩⟩
  · intro name index kept
    rw [get?_collectSources, kept, Option.some_or]
  · intro name index front back fresh cut first
    rw [get?_collectSources, fresh, Option.none_or, cut]
    exact firstIndex?_append first index back
  · intro name
    rw [OrderedMap.contains, get?_collectSources, Option.isSome_or, Bool.or_eq_true,
      isSome_firstIndex?_iff, ← OrderedMap.contains]
    refine or_congr_right ⟨?_, ?_⟩
    · rintro ⟨index, assigned⟩
      obtain ⟨path, nested, table, listed⟩ := mem_assignments_iff.mp assigned
      exact ⟨path, nested, table, index, listed⟩
    · rintro ⟨path, nested, table, index, listed⟩
      exact ⟨index, mem_assignments_iff.mpr ⟨path, nested, table, listed⟩⟩

/-- Two objects, the second inside the first, whose tables give `a` and `b` two indices each. -/
def nestedTables : Object Unit :=
  { (Object.new "A").setDebug ⟨some (.ofList [(0, ['a']), (2, ['b']), (5, ['b'])])⟩ with
    children := [.object ((Object.new "B").setDebug ⟨some (.ofList [(0, ['c']), (7, ['a'])])⟩)] }

def singleTable (index : UInt32) (name : Text) : Object Unit :=
  (Object.new "C").setDebug ⟨some (.ofList [(index, name)])⟩

/-- An index that `b` has already stays, `a` gets the first of its two, and trees are merged that
agree on `a`, or that share no name. -/
theorem collectSources_first_nested :
    (nestedTables.collectSources (.ofList [(['b'], 4)])).get? ['b'] = some 4 ∧
      (nestedTables.collectSources (.ofList [(['b'], 4)])).get? ['a'] = some 0 ∧
      (singleTable 0 ['a']).collectSources (nestedTables.collectSources OrderedMap.empty) =
        nestedTables.collectSources ((singleTable 0 ['a']).collectSources OrderedMap.empty) ∧
      ((singleTable 0 ['d']).collectSources (nestedTables.collectSources OrderedMap.empty)).size =
        3 + 1 := by
  have way : nestedTables.assignments =
      [] ++ (0, ['a']) :: [(2, ['b']), (5, ['b']), (0, ['c']), (7, ['a'])] := by decide
  have entries : (nestedTables.collectSources OrderedMap.empty).entries =
      [(['a'], 0), (['b'], 2), (['c'], 0)] := by decide
  have single : ∀ name : Text,
      ((singleTable 0 name).collectSources OrderedMap.empty).entries = [(name, 0)] := fun _ => rfl
  obtain ⟨stays, first, -, -, pairs⟩ :=
    collectSources_first nestedTables (.ofList [(['b'], 4)])
  refine ⟨stays ['b'] 4 (by decide), first ['a'] 0 [] _ (by decide) way (by simp),
    (pairs (singleTable 0 ['a'])).1 ?_, (pairs (singleTable 0 ['d'])).2 ?_⟩
  · intro name index otherIndex found otherFound
    rw [OrderedMap.get?_eq_some_iff, entries] at found
    rw [OrderedMap.get?_eq_some_iff, single] at otherFound
    obtain ⟨rfl, rfl⟩ := Prod.mk.inj (List.mem_singleton.mp otherFound)
    simpa using found
  · rw [OrderedMap.keys, OrderedMap.keys, entries, single]
    decide

end Object

end YulTree

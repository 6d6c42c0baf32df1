import YulTree.Object.Path
import YulTree.Proofs.Object.Names

/-!
# Assembled objects

An object is assembled by attaching nodes to it, one behind the other.  The nodes and their order
say which child stands in which slot (`children_of_assembled`), and the children are found by
their names and by their slots (`orderly_of_assembled`).
-/

namespace YulTree.Object

variable {κ : Type}

/-- The nodes that have been attached to an object, in this order. -/
inductive Assembled : List (Node κ) → Object κ → Prop where
  | new (name : Text) : Assembled [] (.new name)
  | setCode {nodes : List (Node κ)} {object : Object κ} (code : κ) (analysis : Option Text) :
      Assembled nodes object → Assembled nodes (object.setCode code analysis)
  | setDebug {nodes : List (Node κ)} {object : Object κ} (bundle : DebugBundle) :
      Assembled nodes object → Assembled nodes (object.setDebug bundle)
  | attach {nodes : List (Node κ)} {object grown : Object κ} {node : Node κ} :
      Assembled nodes object → object.attach node = .ok grown →
        Assembled (nodes ++ [node]) grown
  | inSlot {nodes : List (Node κ)} {object : Object κ} (slot : Nat) :
      Assembled nodes object → Assembled nodes { object with slot := some slot }

theorem namesFit_of_assembled {nodes : List (Node κ)} {object : Object κ}
    (assembled : Assembled nodes object) : NamesFit object.name object.childNames := by
  induction assembled with
  | new name => exact NamesFit.nil name
  | setCode code analysis assembled namesFit => exact namesFit
  | setDebug bundle assembled namesFit => exact namesFit
  | attach assembled attached namesFit => exact namesFit_of_attach namesFit attached
  | inSlot slot assembled namesFit => exact namesFit

/-- The children are the attached nodes, each in the slot of its turn. -/
theorem children_of_assembled {nodes : List (Node κ)} {object : Object κ}
    (assembled : Assembled nodes object) :
    object.children = nodes.mapIdx fun slot node => node.inSlot slot := by
  induction assembled with
  | new name => rfl
  | setCode code analysis assembled sameChildren => exact sameChildren
  | setDebug bundle assembled sameChildren => exact sameChildren
  | attach assembled attached sameChildren =>
      obtain ⟨-, -, -, rfl⟩ := attach_eq_ok_iff.mp attached
      rw [grow, sameChildren, List.mapIdx_concat, List.length_mapIdx]
  | inSlot slot assembled sameChildren => exact sameChildren

theorem childAt?_of_assembled {nodes : List (Node κ)} {object : Object κ}
    (assembled : Assembled nodes object) (slot : Nat) :
    object.childAt? slot = nodes[slot]?.map (Node.inSlot slot) := by
  rw [childAt?, children_of_assembled assembled, List.getElem?_mapIdx]

/-- Whatever slot an object was in before, it is now in the slot where it stands. -/
theorem slot_of_assembled {nodes : List (Node κ)} {object nested : Object κ} {slot : Nat}
    (assembled : Assembled nodes object)
    (found : object.childAt? slot = some (.object nested)) : nested.slot = some slot := by
  rw [childAt?_of_assembled assembled] at found
  obtain ⟨node, -, placed⟩ := Option.map_eq_some_iff.mp found
  cases node with
  | data entry => cases placed
  | object attached =>
      cases placed
      rfl

theorem mem_children_iff {object : Object κ} {node : Node κ} :
    node ∈ object.children ↔ ∃ slot, object.childAt? slot = some node :=
  List.mem_iff_getElem?

theorem slot_eq_of_name_eq {object : Object κ} (distinct : object.childNames.Nodup)
    {first second : Nat} {node other : Node κ} (firstFound : object.childAt? first = some node)
    (secondFound : object.childAt? second = some other) (sameName : node.name = other.name) :
    first = second := by
  have firstName : object.childNames[first]? = some node.name := by
    rw [childNames, List.getElem?_map]
    exact congrArg (Option.map Node.name) firstFound
  have secondName : object.childNames[second]? = some other.name := by
    rw [childNames, List.getElem?_map]
    exact congrArg (Option.map Node.name) secondFound
  obtain ⟨firstBound, firstEq⟩ := List.getElem?_eq_some_iff.mp firstName
  obtain ⟨secondBound, secondEq⟩ := List.getElem?_eq_some_iff.mp secondName
  apply (List.getElem_inj distinct).mp
  rw [firstEq, secondEq, sameName]

theorem entry?_eq_some_iff {object : Object κ} (distinct : object.childNames.Nodup)
    {name : Text} {node : Node κ} {slot : Nat} :
    object.entry? name = some (node, slot) ↔
      object.childAt? slot = some node ∧ node.name = name := by
  have placed_of_found : ∀ {entry : Node κ × Nat}, object.entry? name = some entry →
      object.childAt? entry.2 = some entry.1 ∧ entry.1.name = name := by
    intro entry found
    constructor
    · exact List.mem_zipIdx_iff_getElem?.mp (List.mem_of_find?_eq_some found)
    · simpa using List.find?_some found
  constructor
  · intro found
    exact placed_of_found found
  · rintro ⟨placed, isNamed⟩
    cases found : object.entry? name with
    | none =>
        have notNamed := List.find?_eq_none.mp found (node, slot)
          (List.mem_zipIdx_iff_getElem?.mpr placed)
        simp [isNamed] at notNamed
    | some entry =>
        obtain ⟨other, place⟩ := entry
        obtain ⟨otherPlaced, otherNamed⟩ := placed_of_found found
        have sameSlot : place = slot :=
          slot_eq_of_name_eq distinct otherPlaced placed (otherNamed.trans isNamed.symm)
        subst sameSlot
        rw [placed] at otherPlaced
        cases otherPlaced
        rfl

theorem child?_eq_map_entry (object : Object κ) (name : Text) :
    object.child? name = (object.entry? name).map Prod.fst := by
  have sameNodes : object.children.zipIdx.map Prod.fst = object.children :=
    List.zipIdx_map_fst 0 object.children
  calc
    object.child? name =
        (object.children.zipIdx.map Prod.fst).find? fun node => node.name == name := by
      rw [sameNodes]
      rfl
    _ = (object.entry? name).map Prod.fst := List.find?_map

theorem child?_eq_some_iff {object : Object κ} (distinct : object.childNames.Nodup)
    {name : Text} {node : Node κ} :
    object.child? name = some node ↔ node ∈ object.children ∧ node.name = name := by
  rw [child?_eq_map_entry, Option.map_eq_some_iff, mem_children_iff]
  constructor
  · rintro ⟨⟨other, slot⟩, found, rfl⟩
    obtain ⟨placed, isNamed⟩ := (entry?_eq_some_iff distinct).mp found
    exact ⟨⟨slot, placed⟩, isNamed⟩
  · rintro ⟨⟨slot, placed⟩, isNamed⟩
    exact ⟨(node, slot), (entry?_eq_some_iff distinct).mpr ⟨placed, isNamed⟩, rfl⟩

/-- The rules for the children of one object. -/
structure Orderly (object : Object κ) : Prop where
  namesFit : NamesFit object.name object.childNames
  byName : ∀ name node,
    object.child? name = some node ↔ node ∈ object.children ∧ node.name = name
  byEntry : ∀ name node slot,
    object.entry? name = some (node, slot) ↔ object.childAt? slot = some node ∧ node.name = name
  bySlot : ∃ nodes, Assembled nodes object ∧
    ∀ slot, object.childAt? slot = nodes[slot]?.map (Node.inSlot slot)
  slots : ∀ slot nested, object.childAt? slot = some (.object nested) → nested.slot = some slot

theorem orderly_of_assembled {nodes : List (Node κ)} {object : Object κ}
    (assembled : Assembled nodes object) : object.Orderly := by
  have namesFit := namesFit_of_assembled assembled
  constructor
  · exact namesFit
  · intro name node
    exact child?_eq_some_iff namesFit.distinct
  · intro name node slot
    exact entry?_eq_some_iff namesFit.distinct
  · exact ⟨nodes, assembled, childAt?_of_assembled assembled⟩
  · intro slot nested found
    exact slot_of_assembled assembled found

/-- An object is within itself and within the objects around it. -/
inductive Within : Object κ → Object κ → Prop where
  | itself (object : Object κ) : Within object object
  | child {nested inner object : Object κ} :
      .object inner ∈ object.children → Within nested inner → Within nested object

def AllAssembled (object : Object κ) : Prop :=
  ∀ nested : Object κ, nested.Within object → ∃ nodes, Assembled nodes nested

theorem allAssembled_iff {object : Object κ} :
    object.AllAssembled ↔
      (∃ nodes, Assembled nodes object) ∧
        ∀ inner : Object κ, .object inner ∈ object.children → inner.AllAssembled := by
  constructor
  · intro all
    constructor
    · exact all object (.itself object)
    · intro inner member nested within
      exact all nested (.child member within)
  · rintro ⟨assembled, innerAssembled⟩ nested within
    cases within with
    | itself => exact assembled
    | child member within => exact innerAssembled _ member nested within

namespace AllAssembled

theorem new (name : Text) : (new name : Object κ).AllAssembled := by
  apply allAssembled_iff.mpr
  constructor
  · exact ⟨[], .new name⟩
  · intro inner member
    cases member

theorem setCode {object : Object κ} (all : object.AllAssembled) (code : κ)
    (analysis : Option Text) : (object.setCode code analysis).AllAssembled := by
  obtain ⟨⟨nodes, assembled⟩, innerAssembled⟩ := allAssembled_iff.mp all
  exact allAssembled_iff.mpr ⟨⟨nodes, assembled.setCode code analysis⟩, innerAssembled⟩

theorem setDebug {object : Object κ} (all : object.AllAssembled) (bundle : DebugBundle) :
    (object.setDebug bundle).AllAssembled := by
  obtain ⟨⟨nodes, assembled⟩, innerAssembled⟩ := allAssembled_iff.mp all
  exact allAssembled_iff.mpr ⟨⟨nodes, assembled.setDebug bundle⟩, innerAssembled⟩

theorem inSlot {object : Object κ} (all : object.AllAssembled) (slot : Nat) :
    AllAssembled { object with slot := some slot } := by
  obtain ⟨⟨nodes, assembled⟩, innerAssembled⟩ := allAssembled_iff.mp all
  exact allAssembled_iff.mpr ⟨⟨nodes, assembled.inSlot slot⟩, innerAssembled⟩

theorem attach {parent grown : Object κ} {node : Node κ} (all : parent.AllAssembled)
    (nodeAssembled : ∀ nested : Object κ, node = .object nested → nested.AllAssembled)
    (attached : parent.attach node = .ok grown) : grown.AllAssembled := by
  obtain ⟨⟨nodes, assembled⟩, innerAssembled⟩ := allAssembled_iff.mp all
  apply allAssembled_iff.mpr
  constructor
  · exact ⟨nodes ++ [node], assembled.attach attached⟩
  · obtain ⟨-, -, -, rfl⟩ := attach_eq_ok_iff.mp attached
    intro inner member
    rcases List.mem_append.mp member with old | new
    · exact innerAssembled inner old
    · cases node with
      | data entry => cases List.mem_singleton.mp new
      | object nested =>
          cases List.mem_singleton.mp new
          exact (nodeAssembled nested rfl).inSlot parent.children.length

theorem descend? {path : List Nat} {object nested : Object κ} (all : object.AllAssembled)
    (found : object.descend? path = some nested) : nested.AllAssembled := by
  induction path generalizing object with
  | nil =>
      cases found
      exact all
  | cons slot path inductionHypothesis =>
      rw [Object.descend?] at found
      split at found
      · next inner placed =>
          have member : .object inner ∈ object.children := mem_children_iff.mpr ⟨slot, placed⟩
          exact inductionHypothesis ((allAssembled_iff.mp all).2 inner member) found
      · cases found

end AllAssembled

end YulTree.Object

import Mathlib.Data.Finset.Card
import YulTree.Proofs.Object.Merge

/-!
# Contiguous indices

The indices of a tree are contiguous if no index is missing below one that is in use.  Only the
set of indices matters that are left when the tables are merged (`hasContiguousSources_iff`).
-/

namespace YulTree

/-- Ascending numbers are the first ones exactly if none is left out below one of them. -/
theorem eq_range_iff {numbers : List Nat} (ascending : numbers.Pairwise (· < ·)) :
    numbers = List.range numbers.length ↔ ∀ n ∈ numbers, ∀ below < n, below ∈ numbers := by
  constructor
  · intro whole n member below isBelow
    rw [whole, List.mem_range] at member ⊢
    omega
  · induction numbers using List.reverseRecOn with
    | nil => intro _; rfl
    | append_singleton front last inductionHypothesis =>
        intro closed
        obtain ⟨frontAscending, -, lastGreatest⟩ := List.pairwise_append.mp ascending
        have isGreatest : ∀ n ∈ front, n < last := fun n member =>
          lastGreatest n member last (List.mem_singleton.mpr rfl)
        have belowLast : ∀ n < last, n ∈ front := by
          intro n isBelow
          have atEnd : last ∈ front ++ [last] :=
            List.mem_append_right _ (List.mem_singleton.mpr rfl)
          have member := closed last atEnd n isBelow
          rcases List.mem_append.mp member with inFront | isLast
          · exact inFront
          · rw [List.mem_singleton.mp isLast] at isBelow
            exact absurd isBelow (Nat.lt_irrefl last)
        have frontEq : front = List.range front.length := by
          refine inductionHypothesis frontAscending fun n member below isBelow => ?_
          exact belowLast below (Nat.lt_trans isBelow (isGreatest n member))
        have lastEq : last = front.length := by
          refine Nat.le_antisymm (Nat.le_of_not_lt fun longer => ?_)
            (Nat.le_of_not_lt fun shorter => ?_)
          · have member := belowLast front.length longer
            rw [frontEq, List.mem_range, List.length_range] at member
            exact Nat.lt_irrefl _ member
          · have member : last ∈ front := by
              rw [frontEq, List.mem_range]
              exact shorter
            exact Nat.lt_irrefl _ (isGreatest last member)
        rw [List.length_append, List.length_singleton, List.range_succ, ← frontEq, lastEq]

namespace OrderedSet

variable {κ : Type} [OrderedKey κ] [DecidableEq κ]

theorem mem_keys_ofList {member : κ} {list : List κ} :
    member ∈ (ofList list).keys ↔ member ∈ list := by
  rw [OrderedMap.mem_keys_iff, contains_ofList]

/-- A set has as many members as the list that it is made of has different ones. -/
theorem size_ofList (list : List κ) : (ofList list).size = list.toFinset.card := by
  have sameMembers : list.toFinset = (ofList list).keys.toFinset := by
    ext member
    rw [List.mem_toFinset, List.mem_toFinset, mem_keys_ofList]
  rw [sameMembers, List.toFinset_card_of_nodup (OrderedMap.nodup_keys _), OrderedMap.size_eq]

/-- Lists with the same members make the same set. -/
theorem ofList_congr {first second : List κ} (same : ∀ member, member ∈ first ↔ member ∈ second) :
    ofList first = ofList second := by
  refine OrderedMap.ext_get? fun member => ?_
  have sameMember : (ofList first).contains member = (ofList second).contains member := by
    rw [Bool.eq_iff_iff, contains_ofList, contains_ofList]
    exact same member
  unfold OrderedMap.contains at sameMember
  generalize (ofList first).get? member = found at sameMember ⊢
  generalize (ofList second).get? member = other at sameMember ⊢
  cases found <;> cases other <;> simp_all

end OrderedSet

/-- The numbers of a set of indices, in their order. -/
theorem ascending_toNat_keys (indices : OrderedSet UInt32) :
    (indices.keys.map UInt32.toNat).Pairwise (· < ·) := by
  rw [OrderedMap.keys, List.map_map, List.pairwise_map]
  exact indices.ascending.imp fun isBefore => of_decide_eq_true isBefore

theorem mem_map_toNat_keys {indices : List UInt32} {index : UInt32} :
    index.toNat ∈ (OrderedSet.ofList indices).keys.map UInt32.toNat ↔ index ∈ indices := by
  rw [List.mem_map_of_injective fun _ _ => UInt32.toNat_inj.mp, OrderedSet.mem_keys_ofList]

/-- It makes no difference whether indices are compared as words or as numbers. -/
theorem forall_mem_toNat_iff {indices : List UInt32} :
    (∀ n ∈ (OrderedSet.ofList indices).keys.map UInt32.toNat, ∀ below < n,
        below ∈ (OrderedSet.ofList indices).keys.map UInt32.toNat) ↔
      ∀ index ∈ indices, ∀ below < index, below ∈ indices := by
  constructor
  · intro closed index member below isBelow
    exact mem_map_toNat_keys.mp
      (closed index.toNat (mem_map_toNat_keys.mpr member) below.toNat
        (UInt32.lt_iff_toNat_lt.mp isBelow))
  · intro closed n member below isBelow
    obtain ⟨index, isKey, rfl⟩ := List.mem_map.mp member
    have short : below < UInt32.size := Nat.lt_trans isBelow index.toNat_lt
    have sameNumber : (UInt32.ofNat below).toNat = below := UInt32.toNat_ofNat_of_lt' short
    rw [← sameNumber] at isBelow ⊢
    exact mem_map_toNat_keys.mpr
      (closed index (OrderedSet.mem_keys_ofList.mp isKey) _ (UInt32.lt_iff_toNat_lt.mpr isBelow))

namespace Object

variable {κ : Type}

/-- The indices that are left when the tables of a tree are merged. -/
def mergedIndices (object : Object κ) : List UInt32 :=
  (object.collectSources OrderedMap.empty).values

/-- The indices of a tree are contiguous exactly if every number below one of them is one of them,
provided that there are fewer than 32 bits can count.  So trees that are left with the same indices
are contiguous alike. -/
theorem hasContiguousSources_iff (object : Object κ)
    (few : object.mergedIndices.toFinset.card < UInt32.size) :
    (object.hasContiguousSources = true ↔
      ∀ index ∈ object.mergedIndices, ∀ below < index, below ∈ object.mergedIndices) ∧
    ∀ other : Object κ, (∀ index, index ∈ object.mergedIndices ↔ index ∈ other.mergedIndices) →
      other.hasContiguousSources = object.hasContiguousSources := by
  constructor
  · have counted : (UInt32.ofNat (OrderedSet.ofList object.mergedIndices).size).toNat =
        ((OrderedSet.ofList object.mergedIndices).keys.map UInt32.toNat).length := by
      rw [List.length_map, ← OrderedMap.size_eq, OrderedSet.size_ofList]
      exact UInt32.toNat_ofNat_of_lt' few
    have ascending := ascending_toNat_keys (OrderedSet.ofList object.mergedIndices)
    calc object.hasContiguousSources = true
        ↔ (OrderedSet.ofList object.mergedIndices).keys.map UInt32.toNat =
            List.range
              (UInt32.ofNat (OrderedSet.ofList object.mergedIndices).size).toNat := beq_iff_eq
      _ ↔ ∀ n ∈ (OrderedSet.ofList object.mergedIndices).keys.map UInt32.toNat, ∀ below < n,
            below ∈ (OrderedSet.ofList object.mergedIndices).keys.map UInt32.toNat := by
          rw [counted]
          exact eq_range_iff ascending
      _ ↔ ∀ index ∈ object.mergedIndices, ∀ below < index, below ∈ object.mergedIndices :=
          forall_mem_toNat_iff
  · intro other same
    have sameSet := OrderedSet.ofList_congr same
    unfold mergedIndices at sameSet
    rw [hasContiguousSources, hasContiguousSources, sameSet]

/-- The one index `0` leaves no gap, but below the index `2` that `b` is given first the index `1`
is missing. -/
theorem hasContiguousSources_iff_nested :
    (singleTable 0 ['a']).hasContiguousSources = true ∧
      nestedTables.hasContiguousSources = false := by
  have few : ∀ indices : List UInt32, indices.length < UInt32.size →
      indices.toFinset.card < UInt32.size :=
    fun indices short => Nat.lt_of_le_of_lt (List.toFinset_card_le indices) short
  have single : (singleTable 0 ['a']).mergedIndices = [0] := by decide
  have nested : nestedTables.mergedIndices = [0, 2, 0] := by decide
  constructor
  · refine (hasContiguousSources_iff _ (few _ (by rw [single]; decide))).1.mpr ?_
    rw [single]
    intro index member below isBelow
    rw [List.mem_singleton.mp member] at isBelow
    exact absurd isBelow UInt32.not_lt_zero
  · refine Bool.eq_false_iff.mpr fun contiguous => ?_
    have closed := (hasContiguousSources_iff _ (few _ (by rw [nested]; decide))).1.mp contiguous
    rw [nested] at closed
    exact absurd (closed 2 (by decide) 1 (by decide)) (by decide)

end Object

end YulTree

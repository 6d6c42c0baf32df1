import YulTree.Ordered.Key

/-!
# Ordered tables

A finite map whose entries are listed by ascending key.  Each map has one list of entries, so
two maps that answer every look-up alike are equal (`ext_get?`); `get?_insert` says what an
insertion does to the look-ups.
-/

namespace YulTree

/-- A finite map, listed by ascending key. -/
structure OrderedMap (κ ν : Type) [OrderedKey κ] where
  entries : List (κ × ν)
  ascending : entries.Pairwise fun a b => OrderedKey.before a.1 b.1 = true

namespace OrderedMap

open OrderedKey

variable {κ ν : Type} [OrderedKey κ]

@[ext]
theorem ext {first second : OrderedMap κ ν} (same : first.entries = second.entries) :
    first = second := by
  cases first
  cases second
  simpa using same

instance [DecidableEq κ] [DecidableEq ν] : DecidableEq (OrderedMap κ ν) := fun first second =>
  decidable_of_iff (first.entries = second.entries) ⟨ext, congrArg entries⟩

instance [Repr κ] [Repr ν] : Repr (OrderedMap κ ν) where
  reprPrec table precedence := reprPrec table.entries precedence

def empty : OrderedMap κ ν := ⟨[], List.Pairwise.nil⟩

instance : EmptyCollection (OrderedMap κ ν) := ⟨empty⟩

instance : Inhabited (OrderedMap κ ν) := ⟨empty⟩

def size (table : OrderedMap κ ν) : Nat := table.entries.length

def isEmpty (table : OrderedMap κ ν) : Bool := table.entries.isEmpty

def keys (table : OrderedMap κ ν) : List κ := table.entries.map Prod.fst

def values (table : OrderedMap κ ν) : List ν := table.entries.map Prod.snd

def lookup (key : κ) : List (κ × ν) → Option ν
  | [] => none
  | (other, value) :: rest =>
      if before key other then none
      else if before other key then lookup key rest
      else some value

def get? (table : OrderedMap κ ν) (key : κ) : Option ν := lookup key table.entries

def contains (table : OrderedMap κ ν) (key : κ) : Bool := (table.get? key).isSome

/-- The list with an entry put in its place, or in place of the entry with the same key. -/
def insertEntry (key : κ) (value : ν) : List (κ × ν) → List (κ × ν)
  | [] => [(key, value)]
  | (other, old) :: rest =>
      if before key other then (key, value) :: (other, old) :: rest
      else if before other key then (other, old) :: insertEntry key value rest
      else (key, value) :: rest

theorem mem_insertEntry {key : κ} {value : ν} {entry : κ × ν} {list : List (κ × ν)}
    (member : entry ∈ insertEntry key value list) :
    entry = (key, value) ∨ entry ∈ list := by
  induction list with
  | nil => simpa [insertEntry] using member
  | cons head rest inductionHypothesis =>
      simp only [insertEntry] at member
      split at member
      · simpa using member
      · split at member
        · rcases List.mem_cons.mp member with rfl | member
          · simp
          · rcases inductionHypothesis member with found | found
            · exact Or.inl found
            · exact Or.inr (List.mem_cons_of_mem _ found)
        · rcases List.mem_cons.mp member with found | found
          · exact Or.inl found
          · exact Or.inr (List.mem_cons_of_mem _ found)

/-- Equal keys are those neither of which stands before the other. -/
theorem eq_of_not_before {a b : κ} (notBefore : before a b = false)
    (notAfter : before b a = false) : a = b := by
  refine Classical.byContradiction fun different => ?_
  have comparable := before_connected notBefore different
  simp [notAfter] at comparable

theorem insertEntry_ascending (key : κ) (value : ν) {list : List (κ × ν)}
    (ascending : list.Pairwise fun a b => before a.1 b.1 = true) :
    (insertEntry key value list).Pairwise fun a b => before a.1 b.1 = true := by
  induction list with
  | nil => simp [insertEntry]
  | cons head rest inductionHypothesis =>
      obtain ⟨headFirst, restAscending⟩ := List.pairwise_cons.mp ascending
      simp only [insertEntry]
      split
      · next isBefore =>
          refine List.pairwise_cons.mpr ⟨fun entry member => ?_, ascending⟩
          rcases List.mem_cons.mp member with rfl | member
          · exact isBefore
          · exact before_trans isBefore (headFirst entry member)
      · split
        · next isAfter =>
            refine List.pairwise_cons.mpr
              ⟨fun entry member => ?_, inductionHypothesis restAscending⟩
            rcases mem_insertEntry member with rfl | member
            · exact isAfter
            · exact headFirst entry member
        · next notBefore notAfter =>
            have sameKey : key = head.1 :=
              eq_of_not_before (by simpa using notBefore) (by simpa using notAfter)
            refine List.pairwise_cons.mpr ⟨fun entry member => ?_, restAscending⟩
            rw [sameKey]
            exact headFirst entry member

def insert (table : OrderedMap κ ν) (key : κ) (value : ν) : OrderedMap κ ν :=
  ⟨insertEntry key value table.entries, insertEntry_ascending key value table.ascending⟩

/-- The map with one entry added, unless the key has a value already. -/
def insertIfNew (table : OrderedMap κ ν) (key : κ) (value : ν) : OrderedMap κ ν :=
  if table.contains key then table else table.insert key value

/-- The map of a list of entries, of which a later one replaces an earlier one with the same
key. -/
def ofList (list : List (κ × ν)) : OrderedMap κ ν :=
  list.foldl (fun table entry => table.insert entry.1 entry.2) empty

@[simp]
theorem get?_empty (key : κ) : (empty : OrderedMap κ ν).get? key = none := rfl

theorem lookup_insertEntry (key wanted : κ) (value : ν) {list : List (κ × ν)}
    [DecidableEq κ] :
    lookup wanted (insertEntry key value list) =
      if wanted = key then some value else lookup wanted list := by
  induction list with
  | nil =>
      simp only [insertEntry, lookup]
      by_cases same : wanted = key
      · subst same
        simp [before_irrefl]
      · cases wantedFirst : before wanted key with
        | true => simp [same]
        | false => simp [same, before_connected wantedFirst same]
  | cons head rest inductionHypothesis =>
      obtain ⟨other, old⟩ := head
      simp only [insertEntry]
      cases keyFirst : before key other with
      | true =>
          simp only [if_true, lookup]
          by_cases same : wanted = key
          · subst same
            simp [before_irrefl]
          · cases wantedFirst : before wanted key with
            | true => simp [same, before_trans wantedFirst keyFirst]
            | false =>
                simp [same, before_connected wantedFirst same]
      | false =>
          cases otherFirst : before other key with
          | true =>
              simp only [if_true, Bool.false_eq_true, if_false, lookup, inductionHypothesis]
              by_cases same : wanted = key
              · subst same
                simp [keyFirst, otherFirst]
              · simp [same]
          | false =>
              have sameKey : key = other := eq_of_not_before keyFirst otherFirst
              subst sameKey
              simp only [Bool.false_eq_true, if_false, lookup]
              by_cases same : wanted = key
              · subst same
                simp [before_irrefl]
              · cases wantedFirst : before wanted key with
                | true => simp [same]
                | false => simp [same, before_connected wantedFirst same]

/-- An insertion changes the value of its own key and no other. -/
theorem get?_insert [DecidableEq κ] (table : OrderedMap κ ν) (key wanted : κ) (value : ν) :
    (table.insert key value).get? wanted =
      if wanted = key then some value else table.get? wanted :=
  lookup_insertEntry key wanted value

theorem lookup_eq_some_iff {key : κ} {value : ν} {list : List (κ × ν)}
    (ascending : list.Pairwise fun a b => before a.1 b.1 = true) :
    lookup key list = some value ↔ (key, value) ∈ list := by
  induction list with
  | nil => simp [lookup]
  | cons head rest inductionHypothesis =>
      obtain ⟨other, old⟩ := head
      obtain ⟨headFirst, restAscending⟩ := List.pairwise_cons.mp ascending
      simp only [lookup, List.mem_cons, Prod.mk.injEq]
      cases keyFirst : before key other with
      | true =>
          simp only [if_true, reduceCtorEq, false_iff, not_or, not_and]
          refine ⟨fun same => absurd same (ne_of_before keyFirst), fun member => ?_⟩
          have after := headFirst _ member
          simp [before_asymm keyFirst] at after
      | false =>
          cases otherFirst : before other key with
          | true =>
              simp only [Bool.false_eq_true, if_false, if_true,
                inductionHypothesis restAscending]
              constructor
              · exact Or.inr
              · rintro (⟨rfl, rfl⟩ | member)
                · simp [before_irrefl] at otherFirst
                · exact member
          | false =>
              have sameKey : key = other := eq_of_not_before keyFirst otherFirst
              subst sameKey
              simp only [Bool.false_eq_true, if_false, Option.some.injEq, true_and]
              constructor
              · rintro rfl
                exact Or.inl rfl
              · rintro (rfl | member)
                · rfl
                · have after := headFirst _ member
                  simp [before_irrefl] at after

/-- A key has a value exactly when the entry is listed. -/
theorem get?_eq_some_iff {table : OrderedMap κ ν} {key : κ} {value : ν} :
    table.get? key = some value ↔ (key, value) ∈ table.entries :=
  lookup_eq_some_iff table.ascending

theorem mem_keys_iff {table : OrderedMap κ ν} {key : κ} :
    key ∈ table.keys ↔ table.contains key = true := by
  rw [keys, contains, Option.isSome_iff_exists, List.mem_map]
  constructor
  · rintro ⟨⟨key, value⟩, listed, rfl⟩
    exact ⟨value, get?_eq_some_iff.mpr listed⟩
  · rintro ⟨value, found⟩
    exact ⟨(key, value), get?_eq_some_iff.mp found, rfl⟩

theorem nodup_keys (table : OrderedMap κ ν) : table.keys.Nodup := by
  rw [keys, List.nodup_iff_pairwise_ne, List.pairwise_map]
  exact table.ascending.imp ne_of_before

/-- An ascending list is determined by its members. -/
theorem eq_of_mem_iff {first second : List (κ × ν)}
    (firstAscending : first.Pairwise fun a b => before a.1 b.1 = true)
    (secondAscending : second.Pairwise fun a b => before a.1 b.1 = true)
    (sameMembers : ∀ entry, entry ∈ first ↔ entry ∈ second) : first = second := by
  induction first generalizing second with
  | nil =>
      cases second with
      | nil => rfl
      | cons other others => simpa using (sameMembers other).mpr List.mem_cons_self
  | cons head rest inductionHypothesis =>
      cases second with
      | nil => simpa using (sameMembers head).mp List.mem_cons_self
      | cons other others =>
          obtain ⟨headFirst, restAscending⟩ := List.pairwise_cons.mp firstAscending
          obtain ⟨otherFirst, othersAscending⟩ := List.pairwise_cons.mp secondAscending
          have sameHead : head = other := by
            rcases List.mem_cons.mp ((sameMembers head).mp List.mem_cons_self) with
              same | headLater
            · exact same
            · rcases List.mem_cons.mp ((sameMembers other).mpr List.mem_cons_self) with
                same | otherLater
              · exact same.symm
              · have contrary := before_asymm (headFirst other otherLater)
                simp [otherFirst head headLater] at contrary
          subst sameHead
          congr 1
          refine inductionHypothesis restAscending othersAscending fun entry => ?_
          constructor
          · intro member
            rcases List.mem_cons.mp ((sameMembers entry).mp (List.mem_cons_of_mem _ member))
              with same | later
            · subst same
              simpa [before_irrefl] using headFirst entry member
            · exact later
          · intro member
            rcases List.mem_cons.mp ((sameMembers entry).mpr (List.mem_cons_of_mem _ member))
              with same | later
            · subst same
              simpa [before_irrefl] using otherFirst entry member
            · exact later

/-- A map is determined by its look-ups. -/
theorem ext_get? {first second : OrderedMap κ ν}
    (sameValues : ∀ key, first.get? key = second.get? key) : first = second := by
  refine ext (eq_of_mem_iff first.ascending second.ascending fun entry => ?_)
  rw [← get?_eq_some_iff, ← get?_eq_some_iff, sameValues]

theorem contains_insert [DecidableEq κ] (table : OrderedMap κ ν) (key wanted : κ) (value : ν) :
    (table.insert key value).contains wanted = true ↔
      wanted = key ∨ table.contains wanted = true := by
  rw [contains, get?_insert]
  by_cases same : wanted = key
  · simp [same]
  · simp [same, contains]

/-- Entries with different keys that are added one after another are all in the map, and hide
older entries with the same keys. -/
theorem get?_foldl_insert [DecidableEq κ] {table : OrderedMap κ ν} {list : List (κ × ν)}
    (distinct : (list.map Prod.fst).Nodup) {key : κ} {value : ν} :
    (list.foldl (fun table entry => table.insert entry.1 entry.2) table).get? key = some value ↔
      (key, value) ∈ list ∨ (key ∉ list.map Prod.fst ∧ table.get? key = some value) := by
  induction list generalizing table with
  | nil => simp
  | cons entry rest inductionHypothesis =>
      obtain ⟨other, otherValue⟩ := entry
      obtain ⟨notLater, restDistinct⟩ := List.nodup_cons.mp distinct
      rw [List.foldl_cons, inductionHypothesis restDistinct, get?_insert]
      by_cases same : key = other
      · subst same
        have absent : (key, value) ∉ rest := by
          intro member
          exact notLater (List.mem_map.mpr ⟨_, member, rfl⟩)
        simp [notLater, absent, eq_comm]
      · simp [same]

/-- A map that is made of entries with different keys has these entries. -/
theorem get?_ofList [DecidableEq κ] {list : List (κ × ν)}
    (distinct : (list.map Prod.fst).Nodup) {key : κ} {value : ν} :
    (ofList list).get? key = some value ↔ (key, value) ∈ list := by
  rw [ofList, get?_foldl_insert distinct]
  simp

end OrderedMap

/-- A finite set, listed ascending. -/
abbrev OrderedSet (κ : Type) [OrderedKey κ] : Type := OrderedMap κ Unit

namespace OrderedSet

variable {κ : Type} [OrderedKey κ]

def ofList (list : List κ) : OrderedSet κ :=
  list.foldl (fun set member => set.insert member ()) OrderedMap.empty

theorem contains_foldl_insert [DecidableEq κ] {wanted : κ} (list : List κ) (set : OrderedSet κ) :
    (list.foldl (fun set member => set.insert member ()) set).contains wanted = true ↔
      wanted ∈ list ∨ set.contains wanted = true := by
  induction list generalizing set with
  | nil => simp
  | cons head rest inductionHypothesis =>
      rw [List.foldl_cons, inductionHypothesis, OrderedMap.contains_insert, List.mem_cons,
        or_left_comm, or_assoc]

/-- A set that is made of a list has the members of the list. -/
theorem contains_ofList [DecidableEq κ] {wanted : κ} {list : List κ} :
    (ofList list).contains wanted = true ↔ wanted ∈ list := by
  rw [ofList, contains_foldl_insert]
  exact or_iff_left (by simp [OrderedMap.contains])

end OrderedSet

end YulTree

import Mathlib.Data.List.Forall2
import YulTree.Object.Printer
import YulTree.Proofs.Object.Passage

/-!
# Which table code is printed with

A printer walks through a tree and asks the payloads, one by one, for their texts.  It asks each
payload once, an object's own before those below it and children in the order of their slots, and
it hands each the table of the nearest object that has one (`print_asks`).
-/

namespace YulTree.Object

variable {κ : Type}

mutual

/-- The payloads of a tree, that of an object before those below it. -/
def payloads : Object κ → List κ
  | { name := _, code, analysis := _, debug := _, slot := _, children } =>
      code.toList ++ payloadsAll children

def payloadsAll : List (Node κ) → List κ
  | [] => []
  | .data _ :: rest => payloadsAll rest
  | .object nested :: rest => payloads nested ++ payloadsAll rest

end

section

variable [Code κ] (withPragmas : Bool)

theorem run_noted (context : Context) (payload : κ) (asked : List (Context × κ)) :
    (noted context payload).run asked =
      (Code.print context payload, asked ++ [(context, payload)]) := rfl

theorem run_bind_of_run {σ α β : Type} {first : StateM σ α} {next : α → StateM σ β}
    {before after : σ} {value : α} (ran : first.run before = (value, after)) :
    (first >>= next).run before = (next value).run after := by
  rw [StateT.run_bind, ran]
  rfl

theorem isEmpty_printed (context : Context) (children : List (Node κ)) :
    (mapAll (fun entry => Code.print entry.1 entry.2)
      (inContextAll context children)).isEmpty = children.isEmpty := by
  cases children with
  | nil => rfl
  | cons node rest => cases node <;> rfl

mutual

/-- The walk asks the payloads of a tree in their order, and gives the text of the tree. -/
theorem run_printM : ∀ (object : Object κ) (context : Context) (asked : List (Context × κ)),
    (object.printM noted withPragmas context).run asked =
      ((object.printCode context).layout withPragmas,
        asked ++ (object.inContext context).payloads)
  | { name, code, analysis, debug, slot, children }, context, asked => by
      cases code with
      | none =>
          have below := run_printAllM children (context.enter debug) asked
          rw [printM, run_bind_of_run below]
          rfl
      | some payload =>
          have own := run_noted (context.enter debug) payload asked
          have below := run_printAllM children (context.enter debug)
            (asked ++ [(context.enter debug, payload)])
          rw [printM, run_bind_of_run own]
          by_cases alone : (name.isEmpty && children.isEmpty) = true
          · simp only [Bool.and_eq_true, List.isEmpty_iff] at alone
            obtain ⟨rfl, rfl⟩ := alone
            rfl
          · have stands : (name.isEmpty && (mapAll (fun entry => Code.print entry.1 entry.2)
                (inContextAll (context.enter debug) children)).isEmpty) = false := by
              rw [isEmpty_printed]
              exact Bool.eq_false_iff.mpr alone
            rw [if_neg alone, run_bind_of_run below, printCode, inContext, Option.map_some, map,
              Option.map_some, layout, stands, List.append_assoc]
            rfl

theorem run_printAllM : ∀ (children : List (Node κ)) (context : Context)
    (asked : List (Context × κ)),
    (printAllM noted withPragmas context children).run asked =
      (layoutAll withPragmas
          (mapAll (fun entry => Code.print entry.1 entry.2) (inContextAll context children)),
        asked ++ payloadsAll (inContextAll context children))
  | [], context, asked => by
      rw [inContextAll, payloadsAll, List.append_nil]
      rfl
  | .data entry :: rest, context, asked => by
      rw [printAllM, run_bind_of_run (run_printAllM rest context asked)]
      rfl
  | .object nested :: rest, context, asked => by
      have first := run_printM nested context asked
      have others := run_printAllM rest context
        (asked ++ (nested.inContext context).payloads)
      rw [printAllM, run_bind_of_run first, run_bind_of_run others, List.append_assoc]
      rfl

end

end

/-! ## The order of the walk -/

mutual

/-- The paths of slots to the objects with code, in the order of the walk. -/
def codePaths : Object κ → List (List Nat)
  | { name := _, code, analysis := _, debug := _, slot := _, children } =>
      (code.map fun _ => []).toList ++ codePathsAll 0 children

def codePathsAll (slot : Nat) : List (Node κ) → List (List Nat)
  | [] => []
  | .data _ :: rest => codePathsAll (slot + 1) rest
  | .object nested :: rest =>
      (codePaths nested).map (slot :: ·) ++ codePathsAll (slot + 1) rest

end

def codeAt? (object : Object κ) (path : List Nat) : Option κ :=
  (object.descend? path).bind code

/-- Of the tables on the way from the end of a path of slots up to its start, the first. -/
def nearestTable? (object : Object κ) (path : List Nat) : Option SourceTable :=
  path.inits.reverse.findSome? fun front => (object.descend? front).bind table

theorem codeAt?_cons {object nested : Object κ} {slot : Nat}
    (placed : object.childAt? slot = some (.object nested)) (path : List Nat) :
    object.codeAt? (slot :: path) = nested.codeAt? path := by
  rw [codeAt?, descend?_cons placed, codeAt?]

theorem codeAt?_cons_eq_bind (object : Object κ) (slot : Nat) (path : List Nat) :
    object.codeAt? (slot :: path) =
      ((object.childAt? slot).bind Node.object?).bind fun nested => nested.codeAt? path := by
  rw [codeAt?, descend?]
  split
  · next nested placed =>
      rw [placed]
      rfl
  · next noObject =>
      cases placed : object.childAt? slot with
      | none => rfl
      | some child =>
          cases child with
          | data entry => rfl
          | object nested => exact absurd placed (noObject nested)

theorem isSome_codeAt?_cons {object : Object κ} {slot : Nat} {path : List Nat} :
    (object.codeAt? (slot :: path)).isSome ↔
      ∃ nested, object.childAt? slot = some (.object nested) ∧ (nested.codeAt? path).isSome := by
  constructor
  · intro coded
    rw [codeAt?, descend?] at coded
    split at coded
    · next nested placed => exact ⟨nested, placed, coded⟩
    · cases coded
  · rintro ⟨nested, placed, coded⟩
    rw [codeAt?_cons placed]
    exact coded

theorem nearestTable?_nil (object : Object κ) : object.nearestTable? [] = object.table := by
  cases found : object.table <;> simp [nearestTable?, descend?, found]

/-- The own tables of the objects further down hide the table of the object at the start. -/
theorem nearestTable?_cons {object nested : Object κ} {slot : Nat}
    (placed : object.childAt? slot = some (.object nested)) (path : List Nat) :
    object.nearestTable? (slot :: path) = (nested.nearestTable? path).or object.table := by
  have further : (path.inits.map (slot :: ·)).reverse.findSome?
      (fun front => (object.descend? front).bind table) = nested.nearestTable? path := by
    rw [← List.map_reverse, List.findSome?_map, nearestTable?]
    congr 1
    funext front
    rw [Function.comp_apply, descend?_cons placed]
  rw [nearestTable?, List.inits, List.reverse_cons, List.findSome?_append, further,
    ← nearestTable?_nil]
  rfl

/-- A path begins with the slot of a nested object, where slots are counted from the given one on,
and this is said of that object and the rest of the path. -/
def Enters (said : Object κ → List Nat → Prop) (slot : Nat) (children : List (Node κ))
    (path : List Nat) : Prop :=
  ∃ place nested rest, path = (slot + place) :: rest ∧
    children[place]? = some (.object nested) ∧ said nested rest

theorem enters_cons_iff {said : Object κ → List Nat → Prop} {slot : Nat} {node : Node κ}
    {others : List (Node κ)} {path : List Nat} :
    Enters said slot (node :: others) path ↔
      (∃ nested rest, node = .object nested ∧ path = slot :: rest ∧ said nested rest) ∨
        Enters said (slot + 1) others path := by
  constructor
  · rintro ⟨place, nested, rest, rfl, placed, holds⟩
    cases place with
    | zero => exact .inl ⟨nested, rest, Option.some.inj placed, rfl, holds⟩
    | succ place =>
        exact .inr ⟨place, nested, rest, by rw [Nat.add_right_comm, Nat.add_assoc], placed, holds⟩
  · rintro (⟨nested, rest, rfl, rfl, holds⟩ | ⟨place, nested, rest, rfl, placed, holds⟩)
    · exact ⟨0, nested, rest, rfl, rfl, holds⟩
    · exact ⟨place + 1, nested, rest, by rw [Nat.add_right_comm, Nat.add_assoc], placed, holds⟩

mutual

theorem mem_codePaths_iff : ∀ (object : Object κ) (path : List Nat),
    path ∈ object.codePaths ↔ (object.codeAt? path).isSome
  | { name, code, analysis, debug, slot, children }, path => by
      rw [codePaths, List.mem_append, mem_codePathsAll_iff children]
      cases path with
      | nil =>
          have own : codeAt? { name, code, analysis, debug, slot, children } [] = code := rfl
          cases code <;> simp [own, Enters]
      | cons first rest =>
          rw [isSome_codeAt?_cons]
          constructor
          · rintro (own | ⟨place, nested, others, same, placed, coded⟩)
            · cases code <;> simp at own
            · obtain ⟨rfl, rfl⟩ := List.cons.inj same
              rw [Nat.zero_add]
              exact ⟨nested, placed, coded⟩
          · rintro ⟨nested, placed, coded⟩
            exact .inr ⟨first, nested, rest, by rw [Nat.zero_add], placed, coded⟩

theorem mem_codePathsAll_iff : ∀ (children : List (Node κ)) (slot : Nat) (path : List Nat),
    path ∈ codePathsAll slot children ↔
      Enters (fun nested rest => (nested.codeAt? rest).isSome) slot children path
  | [], slot, path => by
      simp [codePathsAll, Enters]
  | .data entry :: others, slot, path => by
      rw [codePathsAll, mem_codePathsAll_iff others, enters_cons_iff]
      simp
  | .object nested :: others, slot, path => by
      have inside : path ∈ nested.codePaths.map (slot :: ·) ↔
          ∃ other rest, Node.object nested = .object other ∧ path = slot :: rest ∧
            (other.codeAt? rest).isSome := by
        rw [List.mem_map]
        constructor
        · rintro ⟨rest, listed, rfl⟩
          exact ⟨nested, rest, rfl, rfl, (mem_codePaths_iff nested rest).mp listed⟩
        · rintro ⟨other, rest, same, rfl, coded⟩
          obtain rfl := Node.object.inj same
          exact ⟨rest, (mem_codePaths_iff nested rest).mpr coded, rfl⟩
      rw [codePathsAll, List.mem_append, mem_codePathsAll_iff others, enters_cons_iff, inside]

end

mutual

theorem pairwise_codePaths : ∀ object : Object κ, object.codePaths.Pairwise (· < ·)
  | { name, code, analysis, debug, slot, children } => by
      have below := pairwise_codePathsAll children 0
      cases code with
      | none => exact below
      | some payload =>
          refine List.pairwise_cons.mpr ⟨?_, below⟩
          intro path listed
          obtain ⟨place, nested, rest, rfl, -⟩ := (mem_codePathsAll_iff children 0 path).mp listed
          exact List.nil_lt_cons _ _

theorem pairwise_codePathsAll : ∀ (children : List (Node κ)) (slot : Nat),
    (codePathsAll slot children).Pairwise (· < ·)
  | [], slot => List.Pairwise.nil
  | .data entry :: others, slot => pairwise_codePathsAll others (slot + 1)
  | .object nested :: others, slot => by
      have inside : (nested.codePaths.map (slot :: ·)).Pairwise (· < ·) := by
        apply List.pairwise_map.mpr
        apply (pairwise_codePaths nested).imp
        intro front back before
        exact List.cons_lt_cons_iff.mpr (.inr ⟨rfl, before⟩)
      apply List.pairwise_append.mpr
      refine ⟨inside, pairwise_codePathsAll others (slot + 1), ?_⟩
      intro front frontListed back backListed
      obtain ⟨path, -, rfl⟩ := List.mem_map.mp frontListed
      obtain ⟨place, other, rest, rfl, -⟩ :=
        (mem_codePathsAll_iff others (slot + 1) back).mp backListed
      exact List.cons_lt_cons_iff.mpr (.inl (by omega))

end

/-- The context of the payload at a path, if the walk comes from an outer context. -/
def contextAt (object : Object κ) (context : Context) (path : List Nat) : Context :=
  { context with table := (object.nearestTable? path).or context.table }

theorem contextAt_cons {object nested : Object κ} {slot : Nat}
    (placed : object.childAt? slot = some (.object nested)) (context : Context)
    (path : List Nat) :
    object.contextAt context (slot :: path) =
      nested.contextAt (context.enter object.debug) path := by
  rw [contextAt, nearestTable?_cons placed, Option.or_assoc]
  rfl

mutual

theorem contexts_payloads : ∀ (object : Object κ) (context : Context),
    List.Forall₂
      (fun path call => call.1 = object.contextAt context path ∧
        object.codeAt? path = some call.2)
      object.codePaths (object.inContext context).payloads
  | { name, code, analysis, debug, slot, children }, context => by
      have below := contexts_payloadsAll children (context.enter debug) 0
      have belowHere := below.imp (S := fun path call =>
          call.1 = contextAt { name, code, analysis, debug, slot, children } context path ∧
            codeAt? { name, code, analysis, debug, slot, children } path = some call.2) (by
        rintro path call ⟨place, nested, rest, rfl, placed, told, coded⟩
        have childPlaced : childAt? { name, code, analysis, debug, slot, children } place =
            some (.object nested) := placed
        rw [Nat.zero_add, contextAt_cons childPlaced, codeAt?_cons childPlaced]
        exact ⟨told, coded⟩)
      cases code with
      | none => exact belowHere
      | some payload =>
          refine .cons ⟨?_, rfl⟩ belowHere
          rw [contextAt, nearestTable?_nil]
          rfl

theorem contexts_payloadsAll : ∀ (children : List (Node κ)) (context : Context) (slot : Nat),
    List.Forall₂
      (fun path call => Enters (fun nested rest => call.1 = nested.contextAt context rest ∧
        nested.codeAt? rest = some call.2) slot children path)
      (codePathsAll slot children) (payloadsAll (inContextAll context children))
  | [], context, slot => List.Forall₂.nil
  | .data entry :: others, context, slot => by
      apply (contexts_payloadsAll others context (slot + 1)).imp
      intro path call entered
      exact enters_cons_iff.mpr (.inr entered)
  | .object nested :: others, context, slot => by
      apply List.rel_append
      · apply List.forall₂_map_left_iff.mpr
        apply (contexts_payloads nested context).imp
        intro path call served
        exact enters_cons_iff.mpr (.inl ⟨nested, path, rfl, rfl, served⟩)
      · apply (contexts_payloadsAll others context (slot + 1)).imp
        intro path call entered
        exact enters_cons_iff.mpr (.inr entered)

end

/-- What the payload at the end of a path of slots is told, if names of sources are looked up in
the nearest table. -/
structure Tells (object : Object κ) (selection : Selection) (sources : SourceProvider)
    (path : List Nat) (asked : Context × κ) : Prop where
  payload : object.codeAt? path = some asked.2
  selection : asked.1.selection = selection
  sources : asked.1.sources = sources
  name : ∀ index, asked.1.sourceName? index =
    (object.nearestTable? path).bind fun table => table.get? index

/-- Whatever is selected, a printer asks the payloads of a tree once each, an object's own before
those below it and children in the order of their slots, and tells each the selection, the
sources and the names in the nearest table. -/
theorem print_asks [Code κ] (object : Object κ) :
    ∃ paths : List (List Nat), paths.Pairwise (· < ·) ∧
      (∀ path, path ∈ paths ↔ (object.codeAt? path).isSome) ∧
      ∀ selection sources, ∃ asked,
        (object.printM noted selection.useSrc ⟨selection, sources, none⟩).run [] =
          (object.print selection sources, asked) ∧
        List.Forall₂ (object.Tells selection sources) paths asked := by
  refine ⟨object.codePaths, pairwise_codePaths object, mem_codePaths_iff object, ?_⟩
  intro selection sources
  refine ⟨_, run_printM selection.useSrc object ⟨selection, sources, none⟩ [], ?_⟩
  apply (contexts_payloads object ⟨selection, sources, none⟩).imp
  rintro path ⟨context, payload⟩ ⟨rfl, coded⟩
  refine ⟨coded, rfl, rfl, ?_⟩
  intro index
  rw [Context.sourceName?, contextAt, Option.or_none]

end YulTree.Object

import YulTree.Proofs.Object.Listed
import YulTree.Proofs.Object.Store

/-!
# Resolving listed paths

What becomes of a qualified name can be read off the summary (`pathTo_classified`).  Behind the
object's own name a listed path leads to its node, and also without it, unless the path itself
looks as if it began with the own name (`pathTo_listed`).
-/

namespace YulTree.Object

variable {κ : Type}

/-- A name without the object's own name and the dot behind it, if it begins with these. -/
def IsRelative (object : Object κ) (query relative : Text) : Prop :=
  query = object.name ++ '.' :: relative ∨
    relative = query ∧ ¬ object.name ++ ['.'] <+: query

theorem relativeName_eq_iff {object : Object κ} {query relative : Text} :
    object.relativeName query = relative ↔ object.IsRelative query relative := by
  have ownFront : ∀ rest : Text, object.name ++ '.' :: rest = object.name ++ ['.'] ++ rest := by
    intro rest
    rw [List.append_assoc, List.singleton_append]
  have dot : (".".toList : Text) = ['.'] := rfl
  unfold relativeName IsRelative
  rw [ownFront, dot]
  cases dropped : Text.dropPrefix? (object.name ++ ['.']) query with
  | none =>
      have other : ¬ object.name ++ ['.'] <+: query := by
        intro isOwn
        obtain ⟨rest, rfl⟩ := isOwn
        rw [Text.dropPrefix?_append] at dropped
        cases dropped
      constructor
      · intro same
        exact .inr ⟨same.symm, other⟩
      · intro isRelative
        rcases isRelative with rfl | ⟨same, -⟩
        · rw [Text.dropPrefix?_append] at dropped
          cases dropped
        · exact same.symm
  | some rest =>
      have begins := Text.dropPrefix?_eq_some_iff.mp dropped
      subst begins
      constructor
      · intro same
        exact .inl (congrArg _ same)
      · intro isRelative
        rcases isRelative with same | ⟨-, other⟩
        · exact List.append_cancel_left same
        · exact absurd (List.prefix_append _ rest) other

theorem pathTo_eq_iff {object : Object κ} {query relative : Text}
    {result : Except PathError (List Nat)} (all : object.AllAssembled)
    (other : query ≠ object.name) (isRelative : object.IsRelative query relative) :
    object.pathTo query = result ↔ Outcome query (relative.splitOn '.') object result := by
  rw [pathTo, if_neg other, relativeName_eq_iff.mpr isRelative]
  exact follow_eq_iff all

theorem containsObject_iff_passes {object : Object κ} {path : Text} :
    object.summarize.containsObject path = true ↔
      ∃ slots target, Passes (path.splitOn '.') slots object target := by
  rw [containsObject_iff]
  constructor
  · intro listed
    obtain ⟨target, member⟩ := listed
    obtain ⟨slots, passes⟩ := (leads_object_iff (List.splitOn_ne_nil '.' path)).mp
      (mem_reachable_iff.mp member)
    exact ⟨slots, target, passes⟩
  · intro leads
    obtain ⟨slots, target, passes⟩ := leads
    refine ⟨target, mem_reachable_iff.mpr ?_⟩
    exact (leads_object_iff (List.splitOn_ne_nil '.' path)).mpr ⟨slots, passes⟩

theorem ReachesData.named {segments : List Text} {object : Object κ} (all : object.AllAssembled)
    (reaches : ReachesData segments object) : [] ∉ segments := by
  obtain ⟨front, slots, here, entry, rfl, passes, member⟩ := reaches
  induction passes with
  | here object =>
      intro nameless
      exact all.name_ne_nil member (List.mem_singleton.mp nameless).symm
  | deeper placed passes inductionHypothesis =>
      have isChild := mem_children_iff.mpr ⟨_, placed⟩
      intro nameless
      rcases List.mem_cons.mp nameless with first | later
      · exact all.name_ne_nil isChild first.symm
      · exact inductionHypothesis ((allAssembled_iff.mp all).2 _ isChild) member later

theorem listsData_iff_reachesData {object : Object κ} {path : Text} (all : object.AllAssembled) :
    object.ListsData path ↔ ReachesData (path.splitOn '.') object := by
  rw [listsData_iff]
  simp only [mem_reachable_iff, leads_data_iff]
  constructor
  · intro listed
    exact listed.1
  · intro reaches
    refine ⟨reaches, ?_⟩
    rintro rfl
    exact reaches.named all List.mem_cons_self

theorem through_iff {object : Object κ} {path segment : Text} (all : object.AllAssembled) :
    (∃ front rest, path = front ++ '.' :: rest ∧ object.ListsData front ∧
      (front.splitOn '.').getLast? = some segment) ↔
    ∃ front rest, path.splitOn '.' = front ++ rest ∧ rest ≠ [] ∧ ReachesData front object ∧
      front.getLast? = some segment := by
  constructor
  · rintro ⟨front, rest, rfl, listed, isLast⟩
    refine ⟨front.splitOn '.', rest.splitOn '.', ?_, List.splitOn_ne_nil '.' rest, ?_, isLast⟩
    · exact List.splitOn_append_cons_self front rest
    · exact (listsData_iff_reachesData all).mp listed
  · rintro ⟨front, rest, cut, more, reaches, isLast⟩
    have nonempty : front ≠ [] := by
      rintro rfl
      cases isLast
    obtain ⟨-, undotted, whole⟩ := Text.eq_splitOn_iff.mp cut.symm
    have frontUndotted : ∀ name ∈ front, '.' ∉ name := by
      intro name member
      exact undotted name (List.mem_append_left rest member)
    have frontCut : (join front).splitOn '.' = front :=
      List.splitOn_intercalate '.' frontUndotted nonempty
    refine ⟨join front, join rest, ?_, ?_, ?_⟩
    · exact whole.trans (Text.intercalate_append nonempty more)
    · rw [listsData_iff_reachesData all, frontCut]
      exact reaches
    · rw [frontCut]
      exact isLast

/-- What becomes of a name, read off the summary.  The name without the object's own name is
`relative`. -/
structure Classified (object : Object κ) (query relative : Text) : Prop where
  found : (∃ slots, object.pathTo query = .ok slots) ↔
    object.summarize.containsObject relative = true
  slots : ∀ slots, object.pathTo query = .ok slots →
    slots.length = (relative.splitOn '.').length ∧
      ∀ count segment, (relative.splitOn '.')[count]? = some segment →
        ∃ reached, object.descend? (slots.take (count + 1)) = some reached ∧
          reached.name = segment
  toData : ∀ shown, object.pathTo query = .error (.toData shown) ↔
    shown = query ∧ object.ListsData relative
  throughData : ∀ shown segment, object.pathTo query = .error (.throughData shown segment) ↔
    shown = query ∧ ∃ front rest, relative = front ++ '.' :: rest ∧ object.ListsData front ∧
      (front.splitOn '.').getLast? = some segment
  unresolved : (∃ shown segment, object.pathTo query = .error (.unresolved shown segment)) ↔
    object.summarize.containsObject relative = false ∧ ¬ object.ListsData relative ∧
      ¬ ∃ front rest, relative = front ++ '.' :: rest ∧ object.ListsData front
  missed : ∀ shown segment, object.pathTo query = .error (.unresolved shown segment) →
    shown = query ∧ Misses (relative.splitOn '.') object segment

theorem exists_unresolved_iff {result : Except PathError (List Nat)} :
    (∃ shown segment, result = .error (.unresolved shown segment)) ↔
      (¬ ∃ slots, result = .ok slots) ∧ (¬ ∃ shown, result = .error (.toData shown)) ∧
        ¬ ∃ shown segment, result = .error (.throughData shown segment) := by
  cases result with
  | ok slots => simp
  | error error =>
      cases error with
      | unresolved shown segment => simp
      | throughData shown segment => simp
      | toData shown => simp

theorem classified_of_allAssembled {object : Object κ} {query relative : Text}
    (all : object.AllAssembled) (other : query ≠ object.name)
    (isRelative : object.IsRelative query relative) : object.Classified query relative := by
  have leads : ∀ result, object.pathTo query = result ↔
      Outcome query (relative.splitOn '.') object result := by
    intro result
    exact pathTo_eq_iff all other isRelative
  have found : (∃ slots, object.pathTo query = .ok slots) ↔
      object.summarize.containsObject relative = true := by
    simp only [leads, outcome_ok_iff, containsObject_iff_passes]
  have toData : ∀ shown, object.pathTo query = .error (.toData shown) ↔
      shown = query ∧ object.ListsData relative := by
    intro shown
    rw [leads, outcome_toData_iff, listsData_iff_reachesData all]
  have throughData : ∀ shown segment,
      object.pathTo query = .error (.throughData shown segment) ↔
        shown = query ∧ ∃ front rest, relative = front ++ '.' :: rest ∧ object.ListsData front ∧
          (front.splitOn '.').getLast? = some segment := by
    intro shown segment
    rw [leads, outcome_throughData_iff, through_iff all]
  refine ⟨found, ?_, toData, throughData, ?_, ?_⟩
  · intro slots resolved
    obtain ⟨target, passes⟩ := outcome_ok_iff.mp ((leads _).mp resolved)
    refine ⟨passes.length_eq, ?_⟩
    intro count segment isSegment
    exact passes.name_eq isSegment
  · have ends : (∃ shown, object.pathTo query = .error (.toData shown)) ↔
        object.ListsData relative := by
      simp only [toData, exists_eq_left]
    have through : (∃ shown segment, object.pathTo query = .error (.throughData shown segment)) ↔
        ∃ front rest, relative = front ++ '.' :: rest ∧ object.ListsData front := by
      simp only [throughData]
      constructor
      · rintro ⟨shown, segment, -, front, rest, cut, listed, -⟩
        exact ⟨front, rest, cut, listed⟩
      · rintro ⟨front, rest, cut, listed⟩
        obtain ⟨last, isLast⟩ := ((listsData_iff_reachesData all).mp listed).exists_last
        exact ⟨query, last, rfl, front, rest, cut, listed, isLast⟩
    rw [exists_unresolved_iff, found, ends, through, Bool.not_eq_true]
  · intro shown segment missed
    exact outcome_unresolved_iff.mp ((leads _).mp missed)

/-- Every name but the own one is resolved just as the summary tells. -/
theorem pathTo_classified {actions : List (Action κ)} {handle : Nat} {object : Object κ}
    (held : Store.run .empty actions handle = some object) :
    object.pathTo object.name = .ok [] ∧
      ∀ query, query ≠ object.name →
        (∃ relative, object.IsRelative query relative) ∧
        ∀ relative, object.IsRelative query relative → object.Classified query relative := by
  have all := Store.allAssembled_run_empty actions handle object held
  constructor
  · exact if_pos rfl
  · intro query other
    constructor
    · exact ⟨object.relativeName query, relativeName_eq_iff.mp rfl⟩
    · intro relative isRelative
      exact classified_of_allAssembled all other isRelative

/-- An object with a dot in its name, whose child and grandchild have the halves of that name. -/
def halved : Object Unit :=
  { new "A.B" with
    children := [.object { new "A" with
      slot := some 0
      children := [.object { new "B" with
        slot := some 0
        children := [.data ⟨"d", [7]⟩, .object { new "C" with slot := some 1 }] }] }] }

def halving : List (Action Unit) :=
  [.create 0 "A.B", .create 1 "A", .create 2 "B", .create 3 "C", .attachData 2 ⟨"d", [7]⟩,
    .attachObject 2 3, .attachObject 1 2, .attachObject 0 1]

theorem pathTo_classified_halved :
    Store.run .empty halving 0 = some halved ∧ halved.IsRelative "A.B.A.B.d" "A.B.d" ∧
      halved.Classified "A.B.A.B.d" "A.B.d" ∧
      halved.pathTo "A.B.A.B.d" = .error (.toData "A.B.A.B.d") := by
  have held : Store.run .empty halving 0 = some halved := rfl
  have other : ("A.B.A.B.d" : Text) ≠ halved.name := by decide
  refine ⟨held, .inl rfl, ?_, rfl⟩
  exact ((pathTo_classified held).2 _ other).2 _ (.inl rfl)

/-! ## Listed paths with the own name and without -/

/-- A path that looks as if it began with the object's own name. -/
def Captures (object : Object κ) (path : Text) : Prop :=
  path = object.name ∨ object.name ++ ['.'] <+: path

theorem pathTo_qualified {object : Object κ} {path : Text} {result : Except PathError (List Nat)}
    (all : object.AllAssembled) :
    object.pathTo (object.name ++ '.' :: path) = result ↔
      Outcome (object.name ++ '.' :: path) (path.splitOn '.') object result := by
  apply pathTo_eq_iff all
  · intro same
    cases List.append_right_eq_self.mp same
  · exact .inl rfl

theorem pathTo_relative {object : Object κ} {path : Text} {result : Except PathError (List Nat)}
    (all : object.AllAssembled) (free : ¬ object.Captures path) :
    object.pathTo path = result ↔ Outcome path (path.splitOn '.') object result := by
  apply pathTo_eq_iff all
  · intro same
    exact free (.inl same)
  · refine .inr ⟨rfl, ?_⟩
    intro isOwn
    exact free (.inr isOwn)

/-- A path that is taken for one with the own name leads through fewer slots than it has names. -/
theorem length_lt_of_captures {object : Object κ} {path : Text} {slots : List Nat}
    (all : object.AllAssembled) (captured : object.Captures path)
    (resolved : object.pathTo path = .ok slots) :
    slots.length < (path.splitOn '.').length := by
  rcases captured with rfl | ⟨rest, rfl⟩
  · rw [pathTo, if_pos rfl] at resolved
    cases resolved
    exact List.length_pos_iff.mpr (List.splitOn_ne_nil '.' object.name)
  · rw [List.append_assoc, List.singleton_append] at resolved ⊢
    obtain ⟨target, passes⟩ := outcome_ok_iff.mp ((pathTo_qualified all).mp resolved)
    have ownNames := List.length_pos_iff.mpr (List.splitOn_ne_nil '.' object.name)
    rw [List.splitOn_append_cons_self, List.length_append, passes.length_eq]
    omega

theorem eq_of_passes {segments : List Text} {slots slots' : List Nat}
    {object target target' : Object κ} (all : object.AllAssembled)
    (passes : Passes segments slots object target)
    (passes' : Passes segments slots' object target') : target = target' := by
  have followed : follow [] segments object = .ok slots := follow_of_passes all passes
  rw [follow_of_passes all passes'] at followed
  cases followed
  have descends := passes.descend?_eq
  rw [passes'.descend?_eq] at descends
  cases descends
  rfl

theorem mem_reachable_iff_eq {object nested recorded : Object κ} {path : Text}
    {slots : List Nat} (all : object.AllAssembled)
    (passes : Passes (path.splitOn '.') slots object nested) :
    (path, .object recorded) ∈ object.reachable [] ↔ recorded = nested := by
  rw [mem_reachable_iff, leads_object_iff (List.splitOn_ne_nil '.' path)]
  constructor
  · rintro ⟨slots', passes'⟩
    exact eq_of_passes all passes' passes
  · rintro rfl
    exact ⟨slots, passes⟩

theorem Leads.head?_ne {segments : List Text} {object : Object κ} {node : Node κ}
    (all : object.AllAssembled) (leads : Leads segments object node) :
    segments.head? ≠ some object.name := by
  cases leads with
  | child member => simpa using all.name_ne member
  | deeper member leads => simpa [Node.name] using all.name_ne member

/-- Only a dot in the own name lets a path begin with it. -/
theorem not_captures_of_leads {object : Object κ} {path : Text} {node : Node κ}
    (all : object.AllAssembled) (undotted : '.' ∉ object.name)
    (leads : Leads (path.splitOn '.') object node) : ¬ object.Captures path := by
  intro captured
  apply leads.head?_ne all
  rcases captured with rfl | ⟨rest, rfl⟩
  · rw [List.splitOn_eq_singleton undotted, List.head?_cons]
  · rw [List.append_assoc, List.singleton_append,
      List.splitOn_append_cons_self_of_not_mem undotted, List.head?_cons]

/-- A listed path to an object leads, with the own name before it, to the one object that the
summary has for it, and a listed path to a byte string is known for one.  The path alone is as
good unless it looks as if it began with the own name, which takes a dot in the own name. -/
theorem pathTo_listed {actions : List (Action κ)} {handle : Nat} {object : Object κ}
    (held : Store.run .empty actions handle = some object) :
    (∀ path, object.summarize.containsObject path = true →
      ∃ slots nested, object.descend? slots = some nested ∧
        (∀ recorded, (path, .object recorded) ∈ object.reachable [] ↔ recorded = nested) ∧
        object.pathTo (object.name ++ '.' :: path) = .ok slots ∧
        (object.pathTo path = .ok slots ↔ ¬ object.Captures path)) ∧
    (∀ path, object.ListsData path →
      object.pathTo (object.name ++ '.' :: path) =
        .error (.toData (object.name ++ '.' :: path)) ∧
      (¬ object.Captures path → object.pathTo path = .error (.toData path))) ∧
    ('.' ∉ object.name → ∀ path,
      object.summarize.containsObject path = true ∨ object.ListsData path →
        ¬ object.Captures path) := by
  have all := Store.allAssembled_run_empty actions handle object held
  refine ⟨?_, ?_, ?_⟩
  · intro path listed
    obtain ⟨slots, nested, passes⟩ := containsObject_iff_passes.mp listed
    refine ⟨slots, nested, passes.descend?_eq, ?_, ?_, ?_⟩
    · intro recorded
      exact mem_reachable_iff_eq all passes
    · exact (pathTo_qualified all).mpr (.passes passes)
    · constructor
      · intro resolved captured
        have shorter := length_lt_of_captures all captured resolved
        rw [passes.length_eq] at shorter
        exact Nat.lt_irrefl _ shorter
      · intro free
        exact (pathTo_relative all free).mpr (.passes passes)
  · intro path listed
    have reaches := (listsData_iff_reachesData all).mp listed
    constructor
    · exact (pathTo_qualified all).mpr (.toData reaches)
    · intro free
      exact (pathTo_relative all free).mpr (.toData reaches)
  · intro undotted path listed
    rcases listed with isObject | isData
    · obtain ⟨nested, member⟩ := containsObject_iff.mp isObject
      exact not_captures_of_leads all undotted (mem_reachable_iff.mp member)
    · obtain ⟨⟨entry, member⟩, -⟩ := listsData_iff.mp isData
      exact not_captures_of_leads all undotted (mem_reachable_iff.mp member)

theorem pathTo_listed_halved :
    Store.run .empty halving 0 = some halved ∧
      halved.summarize.containsObject "A.B.C" = true ∧
      ∃ slots, halved.pathTo "A.B.A.B.C" = .ok slots ∧
        (halved.pathTo "A.B.C" = .ok slots ↔ ¬ halved.Captures "A.B.C") := by
  have held : Store.run .empty halving 0 = some halved := rfl
  have listed : halved.summarize.containsObject "A.B.C" = true := by decide
  obtain ⟨slots, nested, -, -, qualified, alone⟩ := (pathTo_listed held).1 "A.B.C" listed
  exact ⟨held, listed, slots, qualified, alone⟩

/-- Without the own name before it, a listed path can be taken for one that begins with it. -/
theorem pathTo_captured_halved :
    Store.run .empty halving 0 = some halved ∧ halved.name = "A.B" ∧
      halved.summarize.containsObject "A.B.C" = true ∧
      halved.pathTo "A.B.A.B.C" = .ok [0, 0, 1] ∧
      halved.pathTo "A.B.C" = .error (.unresolved "A.B.C" "C") := by
  refine ⟨rfl, rfl, ?_, rfl, rfl⟩
  decide

end YulTree.Object

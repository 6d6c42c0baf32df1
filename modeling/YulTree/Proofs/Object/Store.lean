import YulTree.Object.Store
import YulTree.Proofs.Reader.Assembled

/-!
# Programs that hold objects

A program creates, reads, copies and changes objects that it holds under handles, and attaches one
to another.  Whatever it does, every level of every object that it holds is in order, and what was
attached stays where it is (`run_orderly`).
-/

namespace YulTree

variable {κ : Type}

/-- Whether a node was offered to an object. -/
def Answer.isOfNode : Answer → Bool
  | .refused _ | .placed _ => true
  | _ => false

/-- An action that neither replaces nor gives away the object under a handle. -/
def Action.Spares (kept : Nat) : Action κ → Prop
  | .create handle _ | .read handle _ _ | .copy handle _ _ => handle ≠ kept
  | .setCode _ _ _ | .setDebug _ _ | .attachData _ _ => True
  | .attachObject _ child => child ≠ kept

namespace Store

theorem run_append (store : Store κ) (first second : List (Action κ)) :
    store.run (first ++ second) = (store.run first).run second :=
  List.foldl_append

def AllAssembled (store : Store κ) : Prop :=
  ∀ handle object, store handle = some object → object.AllAssembled

theorem AllAssembled.set {store : Store κ} (all : store.AllAssembled) (handle : Nat)
    {held : Option (Object κ)} (heldAssembled : ∀ object ∈ held, object.AllAssembled) :
    (store.set handle held).AllAssembled := by
  intro other object found
  by_cases same : other = handle
  · subst same
    rw [set_self] at found
    exact heldAssembled object found
  · rw [set_other same] at found
    exact all other object found

theorem AllAssembled.put {store : Store κ} (all : store.AllAssembled) (handle : Nat)
    {object : Object κ} (objectAssembled : object.AllAssembled) :
    (store.put handle object).1.AllAssembled := by
  apply all.set handle
  intro held member
  cases member
  exact objectAssembled

theorem AllAssembled.attach {store : Store κ} (all : store.AllAssembled) (handle : Nat)
    {node : Node κ} (nodeAssembled : ∀ nested : Object κ, node = .object nested →
      nested.AllAssembled) : (store.attach handle node).1.AllAssembled := by
  unfold Store.attach
  split
  · exact all
  · next object found =>
      split
      · exact all
      · next grown attached =>
          exact all.put handle ((all handle object found).attach nodeAssembled attached)

theorem AllAssembled.perform {store : Store κ} (all : store.AllAssembled) (action : Action κ) :
    (store.perform action).1.AllAssembled := by
  cases action with
  | create handle name => exact all.put handle (.new name)
  | read handle reader source =>
      simp only [Store.perform]
      split
      · exact all
      · next object read => exact all.put handle (Reader.allAssembled_of_read read)
  | copy handle source path =>
      simp only [Store.perform]
      split
      · exact all
      · next object copied =>
          obtain ⟨whole, found, descended⟩ := Option.bind_eq_some_iff.mp copied
          exact all.put handle ((all source whole found).descend? descended)
  | setCode handle code analysis =>
      simp only [Store.perform]
      split
      · exact all
      · next object found => exact all.put handle ((all handle object found).setCode code analysis)
  | setDebug handle bundle =>
      simp only [Store.perform]
      split
      · exact all
      · next object found => exact all.put handle ((all handle object found).setDebug bundle)
  | attachData handle entry =>
      apply all.attach handle
      intro nested same
      cases same
  | attachObject handle child =>
      simp only [Store.perform]
      split
      · exact all
      · next nested found =>
          split
          · exact all
          · have without : (store.set child none).AllAssembled := by
              apply all.set child
              intro object member
              cases member
            apply without.attach handle
            intro inner same
            cases same
            exact all child nested found

theorem allAssembled_run (actions : List (Action κ)) {store : Store κ}
    (all : store.AllAssembled) : (store.run actions).AllAssembled := by
  induction actions generalizing store with
  | nil => exact all
  | cons action rest inductionHypothesis => exact inductionHypothesis (all.perform action)

theorem allAssembled_run_empty (actions : List (Action κ)) :
    (run empty actions).AllAssembled := by
  apply allAssembled_run
  intro handle object found
  cases found

theorem attach_refused {store : Store κ} {handle : Nat} {node : Node κ} {error : AttachError}
    (refused : (store.attach handle node).2 = .refused error) :
    (store.attach handle node).1 = store := by
  unfold attach at refused ⊢
  split
  · rfl
  · next object found =>
      simp only [found] at refused
      split
      · rfl
      · next grown attached =>
          rw [attached] at refused
          cases refused

theorem attach_placed {store : Store κ} {handle slot : Nat} {node : Node κ}
    (placed : (store.attach handle node).2 = .placed slot) :
    ∃ object, store handle = some object ∧ object.attach node = .ok (object.grow node) ∧
      slot = object.children.length ∧
      (store.attach handle node).1 handle = some (object.grow node) := by
  unfold attach at placed ⊢
  split at placed
  · cases placed
  · next object found =>
      split at placed
      · cases placed
      · next grown attached =>
          cases placed
          obtain ⟨-, -, -, rfl⟩ := Object.attach_eq_ok_iff.mp attached
          refine ⟨object, found, attached, rfl, ?_⟩
          exact set_self store handle _

/-- An action whose node was taken or refused does no more than attach it, apart from the handle
that the node was under. -/
theorem perform_eq_attach {store : Store κ} {action : Action κ}
    (offered : (store.perform action).2.isOfNode = true) :
    ∃ node held, action.node? store = some node ∧ held action.handle = store action.handle ∧
      store.perform action = attach held action.handle node := by
  cases action with
  | create handle name => cases offered
  | read handle reader source =>
      simp only [perform] at offered
      split at offered <;> cases offered
  | copy handle source path =>
      simp only [perform] at offered
      split at offered <;> cases offered
  | setCode handle code analysis =>
      simp only [perform] at offered
      split at offered <;> cases offered
  | setDebug handle bundle =>
      simp only [perform] at offered
      split at offered <;> cases offered
  | attachData handle entry => exact ⟨.data entry, store, rfl, rfl, rfl⟩
  | attachObject handle child =>
      simp only [perform] at offered ⊢
      split at offered
      · cases offered
      · next nested found =>
          split at offered
          · cases offered
          · next different =>
              refine ⟨.object nested, store.set child none, ?_, ?_, ?_⟩
              · rw [Action.node?, found]
                rfl
              · exact set_other (Ne.symm different) store none
              · rw [if_neg different]
                rfl

theorem perform_refused {store : Store κ} {action : Action κ} {error : AttachError}
    (refused : (store.perform action).2 = .refused error) :
    (store.perform action).1 action.handle = store action.handle := by
  have offered : (store.perform action).2.isOfNode = true := by
    rw [refused]
    rfl
  obtain ⟨node, held, -, sameObject, attaches⟩ := perform_eq_attach offered
  rw [attaches] at refused ⊢
  rw [attach_refused refused, sameObject]

theorem perform_placed {store : Store κ} {action : Action κ} {slot : Nat}
    (placed : (store.perform action).2 = .placed slot) :
    ∃ node object, action.node? store = some node ∧ store action.handle = some object ∧
      slot = object.children.length ∧ object.attach node = .ok (object.grow node) ∧
      (store.perform action).1 action.handle = some (object.grow node) := by
  have offered : (store.perform action).2.isOfNode = true := by
    rw [placed]
    rfl
  obtain ⟨node, held, isNode, sameObject, attaches⟩ := perform_eq_attach offered
  rw [attaches] at placed ⊢
  obtain ⟨object, found, attached, slotEq, grown⟩ := attach_placed placed
  exact ⟨node, object, isNode, sameObject ▸ found, slotEq, attached, grown⟩

/-! ## Children that stay -/

/-- The object under a handle may have got more children, and has lost none. -/
def Extends (handle : Nat) (before after : Store κ) : Prop :=
  ∀ object, before handle = some object →
    ∃ grown, after handle = some grown ∧ object.children <+: grown.children

theorem Extends.refl (handle : Nat) (store : Store κ) : Extends handle store store := by
  intro object found
  exact ⟨object, found, List.prefix_refl object.children⟩

theorem Extends.trans {handle : Nat} {first second third : Store κ}
    (before : Extends handle first second) (after : Extends handle second third) :
    Extends handle first third := by
  intro object found
  obtain ⟨middle, middleFound, isPrefix⟩ := before object found
  obtain ⟨grown, grownFound, isPrefix'⟩ := after middle middleFound
  exact ⟨grown, grownFound, isPrefix.trans isPrefix'⟩

theorem extends_set_other {handle other : Nat} (different : other ≠ handle) (store : Store κ)
    (held : Option (Object κ)) : Extends handle store (store.set other held) := by
  intro object found
  refine ⟨object, ?_, List.prefix_refl object.children⟩
  rw [set_other (Ne.symm different), found]

theorem extends_set {store : Store κ} {changed : Nat} {object grown : Object κ}
    (found : store changed = some object) (isPrefix : object.children <+: grown.children)
    (handle : Nat) : Extends handle store (store.set changed (some grown)) := by
  by_cases same : changed = handle
  · subst same
    intro held heldFound
    rw [found] at heldFound
    cases heldFound
    exact ⟨grown, set_self store changed _, isPrefix⟩
  · exact extends_set_other same store _

theorem extends_attach (store : Store κ) (changed : Nat) (node : Node κ) (handle : Nat) :
    Extends handle store (store.attach changed node).1 := by
  unfold attach
  split
  · exact .refl handle store
  · next object found =>
      split
      · exact .refl handle store
      · next grown attached =>
          obtain ⟨-, -, -, rfl⟩ := Object.attach_eq_ok_iff.mp attached
          exact extends_set found (List.prefix_append object.children _) handle

theorem extends_perform (store : Store κ) {action : Action κ} {handle : Nat}
    (spares : action.Spares handle) : Extends handle store (store.perform action).1 := by
  cases action with
  | create changed name => exact extends_set_other spares store _
  | read changed reader source =>
      simp only [perform]
      split
      · exact .refl handle store
      · exact extends_set_other spares store _
  | copy changed source path =>
      simp only [perform]
      split
      · exact .refl handle store
      · exact extends_set_other spares store _
  | setCode changed code analysis =>
      simp only [perform]
      split
      · exact .refl handle store
      · next object found =>
          have sameChildren : object.children <+: (object.setCode code analysis).children :=
            List.prefix_refl object.children
          exact extends_set found sameChildren handle
  | setDebug changed bundle =>
      simp only [perform]
      split
      · exact .refl handle store
      · next object found =>
          have sameChildren : object.children <+: (object.setDebug bundle).children :=
            List.prefix_refl object.children
          exact extends_set found sameChildren handle
  | attachData changed entry => exact extends_attach store changed _ handle
  | attachObject changed child =>
      simp only [perform]
      split
      · exact .refl handle store
      · next nested found =>
          split
          · exact .refl handle store
          · exact (extends_set_other spares store none).trans
              (extends_attach _ changed _ handle)

theorem extends_run {actions : List (Action κ)} {handle : Nat}
    (spare : ∀ action ∈ actions, action.Spares handle) (store : Store κ) :
    Extends handle store (store.run actions) := by
  induction actions generalizing store with
  | nil => exact .refl handle store
  | cons action rest inductionHypothesis =>
      obtain ⟨spares, restSpare⟩ := List.forall_mem_cons.mp spare
      exact (extends_perform store spares).trans (inductionHypothesis restSpare _)

/-- Whatever a program does, all levels of its objects are in order; a refused node changes
nothing in the object that it was for; a node that is taken stands in the slot of the answer; and
a child stays in its slot, with its name and all that it holds, as long as the object around it is
neither replaced nor given away. -/
theorem run_orderly (actions : List (Action κ)) :
    (∀ handle object, run empty actions handle = some object →
      ∀ nested : Object κ, nested.Within object → nested.Orderly) ∧
    (∀ action error, ((run empty actions).perform action).2 = .refused error →
      ((run empty actions).perform action).1 action.handle =
        run empty actions action.handle) ∧
    (∀ action slot, ((run empty actions).perform action).2 = .placed slot →
      ∃ node grown, action.node? (run empty actions) = some node ∧
        ((run empty actions).perform action).1 action.handle = some grown ∧
        grown.childAt? slot = some (node.inSlot slot)) ∧
    (∀ handle object slot node, run empty actions handle = some object →
      object.childAt? slot = some node →
      ∀ later, (∀ next ∈ later, next.Spares handle) →
        ∃ grown, run empty (actions ++ later) handle = some grown ∧
          grown.childAt? slot = some node ∧ grown.child? node.name = some node) := by
  refine ⟨?_, ?_, ?_, ?_⟩
  · intro handle object found nested within
    obtain ⟨nodes, assembled⟩ := allAssembled_run_empty actions handle object found nested within
    exact Object.orderly_of_assembled assembled
  · intro action error refused
    exact perform_refused refused
  · intro action slot placed
    obtain ⟨node, object, isNode, -, rfl, -, taken⟩ := perform_placed placed
    exact ⟨node, object.grow node, isNode, taken, List.getElem?_concat_length⟩
  · intro handle object slot node found placed later spare
    obtain ⟨grown, grownFound, isPrefix⟩ := extends_run spare _ object found
    rw [← run_append] at grownFound
    obtain ⟨bound, nodeEq⟩ := List.getElem?_eq_some_iff.mp placed
    have stays : grown.childAt? slot = some node := by
      rw [Object.childAt?, List.prefix_iff_getElem?.mp isPrefix slot bound, nodeEq]
    obtain ⟨nodes, assembled⟩ :=
      allAssembled_run_empty (actions ++ later) handle grown grownFound grown (.itself grown)
    have byName := (Object.orderly_of_assembled assembled).byName
    refine ⟨grown, grownFound, stays, (byName node.name node).mpr ⟨?_, rfl⟩⟩
    exact Object.mem_children_iff.mpr ⟨slot, stays⟩

end Store

end YulTree

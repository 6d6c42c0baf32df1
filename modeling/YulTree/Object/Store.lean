import YulTree.Reader.Read

/-!
# Objects under handles

A program creates, reads, copies and changes objects that it holds under handles, and attaches one
to another.
-/

namespace YulTree

variable {κ : Type}

/-- What a program does.  An object is cloned by copying it at the empty path, and an object that
is attached is no longer held on its own. -/
inductive Action (κ : Type) where
  | create (handle : Nat) (name : Text)
  | read (handle : Nat) (reader : Reader κ) (source : Text)
  | copy (handle source : Nat) (path : List Nat)
  | setCode (handle : Nat) (code : κ) (analysis : Option Text)
  | setDebug (handle : Nat) (bundle : DebugBundle)
  | attachData (handle : Nat) (entry : Data)
  | attachObject (handle child : Nat)

inductive Answer where
  | done
  | missing
  | unread (error : ReadError)
  | refused (error : AttachError)
  | placed (slot : Nat)
  deriving DecidableEq, Repr

abbrev Store (κ : Type) : Type := Nat → Option (Object κ)

namespace Store

def empty : Store κ := fun _ => none

def set (store : Store κ) (handle : Nat) (held : Option (Object κ)) : Store κ := fun other =>
  if other = handle then held else store other

@[simp]
theorem set_self (store : Store κ) (handle : Nat) (held : Option (Object κ)) :
    store.set handle held handle = held := if_pos rfl

theorem set_other {handle other : Nat} (different : other ≠ handle) (store : Store κ)
    (held : Option (Object κ)) : store.set handle held other = store other := if_neg different

def put (store : Store κ) (handle : Nat) (object : Object κ) : Store κ × Answer :=
  (store.set handle (some object), .done)

def attach (store : Store κ) (handle : Nat) (node : Node κ) : Store κ × Answer :=
  match store handle with
  | none => (store, .missing)
  | some object =>
      match object.attach node with
      | .error error => (store, .refused error)
      | .ok grown => (store.set handle (some grown), .placed object.children.length)

def perform (store : Store κ) : Action κ → Store κ × Answer
  | .create handle name => store.put handle (.new name)
  | .read handle reader source =>
      match reader.read source with
      | .error error => (store, .unread error)
      | .ok object => store.put handle object
  | .copy handle source path =>
      match (store source).bind (Object.descend? path) with
      | none => (store, .missing)
      | some object => store.put handle object
  | .setCode handle code analysis =>
      match store handle with
      | none => (store, .missing)
      | some object => store.put handle (object.setCode code analysis)
  | .setDebug handle bundle =>
      match store handle with
      | none => (store, .missing)
      | some object => store.put handle (object.setDebug bundle)
  | .attachData handle entry => store.attach handle (.data entry)
  | .attachObject handle child =>
      match store child with
      | none => (store, .missing)
      | some nested =>
          if child = handle then (store, .missing)
          else (store.set child none).attach handle (.object nested)

def run (store : Store κ) (actions : List (Action κ)) : Store κ :=
  actions.foldl (fun held action => (held.perform action).1) store

end Store

namespace Action

/-- The handle whose object an action makes or changes. -/
def handle : Action κ → Nat
  | .create handle _ | .read handle _ _ | .copy handle _ _ | .setCode handle _ _
  | .setDebug handle _ | .attachData handle _ | .attachObject handle _ => handle

/-- The node that an action is to attach. -/
def node? (store : Store κ) : Action κ → Option (Node κ)
  | .attachData _ entry => some (.data entry)
  | .attachObject _ child => (store child).map .object
  | _ => none

end Action

end YulTree

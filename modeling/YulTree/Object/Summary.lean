import YulTree.Object.Basic
import YulTree.Ordered.Map

/-!
# Structure summaries

The paths by which the code of an object can name the nodes below it.  A child with a dot in
its name cannot be told from a longer path, so it is left out with all that is below it.
-/

namespace YulTree

/-- The paths that lead from an object to objects and byte strings below it. -/
structure Summary where
  name : Text
  objectPaths : OrderedSet Text
  dataPaths : OrderedSet Text
  deriving DecidableEq, Repr

namespace Summary

def containsObject (summary : Summary) (path : Text) : Bool :=
  summary.objectPaths.contains path

def containsData (summary : Summary) (path : Text) : Bool :=
  summary.dataPaths.contains path

def contains (summary : Summary) (path : Text) : Bool :=
  summary.containsObject path || summary.containsData path

def topLevelNames (summary : Summary) : OrderedSet Text :=
  OrderedSet.ofList (summary.objectPaths.keys.map fun path => (path.splitOn '.').headD [])

end Summary

namespace Object

variable {κ : Type}

mutual

/-- The nodes below an object that a path leads to, and the paths, which all begin with
`front`. -/
def reachable (front : Text) : Object κ → List (Text × Node κ)
  | { name := _, code := _, analysis := _, debug := _, slot := _, children } =>
      reachableAll front children

def reachableAll (front : Text) : List (Node κ) → List (Text × Node κ)
  | [] => []
  | .data entry :: rest =>
      if entry.name.contains '.' then reachableAll front rest
      else (front ++ entry.name, .data entry) :: reachableAll front rest
  | .object nested :: rest =>
      if nested.name.contains '.' then reachableAll front rest
      else
        (front ++ nested.name, .object nested) ::
          (reachable (front ++ nested.name ++ ".") nested ++ reachableAll front rest)

end

def hasMetadata (object : Object κ) : Bool :=
  ((object.child? metadataName).bind Node.data?).isSome

/-- The summary of an object.  Its own metadata is listed in spite of the dot. -/
def summarize (object : Object κ) : Summary :=
  let nodes := object.reachable []
  let objects := nodes.filter fun entry => entry.2.object?.isSome
  let data := nodes.filter fun entry => entry.2.data?.isSome
  { name := object.name
    objectPaths := OrderedSet.ofList (objects.map Prod.fst)
    dataPaths := OrderedSet.ofList
      ((if object.hasMetadata then [metadataName] else []) ++ data.map Prod.fst) }

end Object

end YulTree

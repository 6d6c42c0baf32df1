import YulTree.Object.Basic
import YulTree.Ordered.Map

/-!
# The sources of a whole tree

The tables of an object and of all objects below it, merged into one table from names to
indices.  Of several indices for one name the first counts.
-/

namespace YulTree

/-- Name by name, the index of a source. -/
abbrev SourceIndices : Type := OrderedMap Text UInt32

def SourceIndices.addTable (indices : SourceIndices) (table : Option SourceTable) :
    SourceIndices :=
  match table with
  | none => indices
  | some table =>
      table.entries.foldl (fun merged entry => merged.insertIfNew entry.2 entry.1) indices

namespace Object

variable {κ : Type}

mutual

/-- The indices with those of an object and of all objects below it. -/
def collectSources (indices : SourceIndices) : Object κ → SourceIndices
  | { name := _, code := _, analysis := _, debug, slot := _, children } =>
      collectSourcesAll (indices.addTable (debug.bind DebugBundle.table)) children

def collectSourcesAll (indices : SourceIndices) : List (Node κ) → SourceIndices
  | [] => indices
  | .data _ :: rest => collectSourcesAll indices rest
  | .object nested :: rest => collectSourcesAll (collectSources indices nested) rest

end

/-- Whether the indices of a tree are those below some number.  They are counted in 32 bits. -/
def hasContiguousSources (object : Object κ) : Bool :=
  let indices := OrderedSet.ofList (object.collectSources OrderedMap.empty).values
  let count := UInt32.ofNat indices.size
  indices.keys.map UInt32.toNat == List.range count.toNat

end Object

end YulTree

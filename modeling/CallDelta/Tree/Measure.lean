import CallDelta.Digest
import CallDelta.Sum
import CallDelta.Tree.Table

/-!
# Measures

The measures of a node are the height and the size of its subtree and the digest of its content.
They are worked out from those of its children.
-/

namespace CallDelta

/-- The measures of a node's subtree. -/
structure Measure where
  /-- The number of levels. A leaf has height 1. -/
  height : Nat
  /-- The number of nodes, counting the node itself. -/
  size : Nat
  /-- A digest of type names, labels and shape. -/
  digest : UInt64

/-- What is read where nothing has been written yet. -/
def Measure.blank : Measure := { height := 0, size := 0, digest := 0 }

/-- The measures of a node from those of its children. -/
def Measure.ofChildren (typeName : String) (label : Option String) (below : List Measure) :
    Measure where
  height := 1 + (below.map (·.height)).foldl max 0
  size := 1 + sumOf (below.map (·.size))
  digest := Digest.ofNode typeName label (below.map (·.digest))

/-- The measures of a tree's nodes, by number. -/
abbrev Measures := Array Measure

/-- The measures of one node. -/
def Measures.of (table : Measures) (i : Nat) : Measure := table.getD i .blank

/-- The measures of all nodes. -/
def Tree.measures (t : Tree) : Measures :=
  t.tabulate .blank fun i below => .ofChildren (t.typeName i) (t.label? i) below

end CallDelta

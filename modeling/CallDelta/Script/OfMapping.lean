import CallDelta.Mapping
import CallDelta.Script.Action
import CallDelta.Tree.Table
import CallDelta.Tree.Walk

/-!
# The edit script of a mapping

The destination tree is walked level by level: an unpaired node is inserted, a paired node is
updated if its label differs and moved if its parent is not the partner of its partner's parent.
Then the source tree is walked from the leaves up, and unpaired nodes are deleted.

A subtree without any paired node is inserted or deleted as a whole, at its top. The order of
siblings plays no part.
-/

namespace CallDelta

/-- Two trees under comparison. -/
structure TreePair where
  src : Tree
  dst : Tree

/-- The tree of a side. -/
def TreePair.side (trees : TreePair) : Side → Tree
  | .source => trees.src
  | .destination => trees.dst

namespace Tree

/-- The place of a node among its siblings, 0 for the root. -/
def position (t : Tree) (i : Nat) : Nat := (t.parent? i).elim 0 (fun p => (t.children p).idxOf i)

/-- Marks for the nodes whose subtrees have no paired node. -/
def freeMarks (t : Tree) (paired : Nat → Bool) : Array Bool :=
  t.tabulate false fun i below => !paired i && below.all id

end Tree

namespace EditScript

/-- What happens to a destination node without a partner, where `free` tells which subtrees have no
paired node. Below the top of an inserted subtree nothing more is said. -/
def insertionAt (dst : Tree) (free : Nat → Bool) (x : Nat) : List Action :=
  if !free x then [.insertNode x (dst.parent? x) (dst.position x)]
  else if !(dst.parent? x).any free then [.insertTree x (dst.parent? x) (dst.position x)]
  else []

/-- The update of a paired node. -/
def update (src dst : Tree) (s x : Nat) : List Action :=
  if src.label? s != dst.label? x then [.updateNode s (dst.label? x)] else []

/-- The move of a paired node. -/
def relocation (src dst : Tree) (m : Mapping) (s x : Nat) : List Action :=
  match dst.parent? x, src.parent? s with
  | some px, some ps => if m.dstOf? ps != some px then [.move s px (dst.position x)] else []
  | _, _ => []

/-- The actions at a destination node. -/
def destinationActions (src dst : Tree) (m : Mapping) (free : Nat → Bool) (x : Nat) : List Action :=
  match m.srcOf? x with
  | none => insertionAt dst free x
  | some s => update src dst s x ++ relocation src dst m s x

/-- The actions at a source node. -/
def sourceActions (src : Tree) (m : Mapping) (free : Nat → Bool) (s : Nat) : List Action :=
  if m.hasSrc s then []
  else if !free s then [.deleteNode s]
  else if !(src.parent? s).any free then [.deleteTree s]
  else []

/-- The edit script from `src` to `dst` under a mapping. -/
def ofMapping (src dst : Tree) (m : Mapping) : EditScript :=
  let srcFree := src.freeMarks m.hasSrc
  let dstFree := dst.freeMarks m.hasDst
  dst.breadthFirst.flatMap (destinationActions src dst m (dstFree.getD · false)) ++
    (src.postOrder src.root).flatMap (sourceActions src m (srcFree.getD · false))

end EditScript

end CallDelta

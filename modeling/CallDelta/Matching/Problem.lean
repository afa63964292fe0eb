import CallDelta.Mapping
import CallDelta.Tree.Isomorphism
import CallDelta.Tree.Measure
import CallDelta.Tree.Walk

/-!
# Matching problems

A matching problem is a pair of trees together with what a matcher wants to know about their nodes:
the heights and sizes of subtrees, and which subtrees may be equal. Whether two subtrees may be
equal is an index only, asked before the subtrees are compared. It comes from digests
(`MatchProblem.ofDigests`), or from the comparison itself (`MatchProblem.byIsomorphism`).
-/

namespace CallDelta

/-- What a matcher is told. -/
structure MatchOptions where
  /-- The least height of the subtrees that are paired top-down. -/
  minHeight : Nat := 2
  /-- The least similarity of the nodes that are paired bottom-up. -/
  threshold : Float := 0.5

/-- Two trees to be matched. -/
structure MatchProblem where
  src : Tree
  dst : Tree
  /-- The height of a source node's subtree. -/
  srcHeight : Nat → Nat
  /-- The height of a destination node's subtree. -/
  dstHeight : Nat → Nat
  /-- The number of nodes in a source node's subtree. -/
  srcSize : Nat → Nat
  /-- The number of nodes in a destination node's subtree. -/
  dstSize : Nat → Nat
  /-- Whether two source nodes may have equal subtrees. -/
  alikeSrc : Nat → Nat → Bool
  /-- Whether a source node and a destination node may have equal subtrees. -/
  alike : Nat → Nat → Bool

namespace MatchProblem

/-- The problem with an index by digests. -/
def ofDigests (src dst : Tree) (srcTable dstTable : Measures) (srcDigest dstDigest : Nat → UInt64) :
    MatchProblem where
  src
  dst
  srcHeight s := (srcTable.of s).height
  dstHeight d := (dstTable.of d).height
  srcSize s := (srcTable.of s).size
  dstSize d := (dstTable.of d).size
  alikeSrc s s' := srcDigest s == srcDigest s'
  alike s d := srcDigest s == dstDigest d

/-- The problem of two trees, with the digests of their own measures. -/
def ofMeasures (src dst : Tree) (srcTable dstTable : Measures) : MatchProblem :=
  ofDigests src dst srcTable dstTable (fun s => (srcTable.of s).digest)
    (fun d => (dstTable.of d).digest)

/-- The problem of two trees. -/
def ofTrees (src dst : Tree) : MatchProblem := ofMeasures src dst src.measures dst.measures

/-- The problem with an index by comparison. -/
def byIsomorphism (src dst : Tree) : MatchProblem :=
  { ofMeasures src dst src.measures dst.measures with
    alikeSrc := fun s s' => isomorphic src s src s'
    alike := fun s d => isomorphic src s dst d }

variable (p : MatchProblem)

/-- Whether a source node and a destination node have the same type name. -/
def sameType (s d : Nat) : Bool := p.src.typeName s == p.dst.typeName d

/-- Whether a source node and a destination node have equal subtrees. -/
def equal (s d : Nat) : Bool := isomorphic p.src s p.dst d

/-- Pairs two subtrees node by node, in pre-order. -/
def linkSubtrees (m : Mapping) (s d : Nat) : Mapping :=
  m.linkAll ((p.src.preOrder s).zip (p.dst.preOrder d))

/-- Pairs subtrees for a list of their tops. -/
def linkSubtreesAll (m : Mapping) (tops : List (Nat × Nat)) : Mapping :=
  tops.foldl (fun m top => p.linkSubtrees m top.1 top.2) m

/-- Whether no node of a source subtree is paired. -/
def freeSrc (m : Mapping) (s : Nat) : Bool := (p.src.preOrder s).all (fun i => !m.hasSrc i)

/-- Whether no node of a destination subtree is paired. -/
def freeDst (m : Mapping) (d : Nat) : Bool := (p.dst.preOrder d).all (fun i => !m.hasDst i)

/-- The children of a source node that are not paired. -/
def freeSrcChildren (m : Mapping) (s : Nat) : List Nat :=
  (p.src.children s).filter (fun c => !m.hasSrc c)

/-- The children of a destination node that are not paired. -/
def freeDstChildren (m : Mapping) (d : Nat) : List Nat :=
  (p.dst.children d).filter (fun c => !m.hasDst c)

end MatchProblem

end CallDelta

import CallDelta.Matching.Match
import CallDelta.Proofs.SameShape

/-!
# Problems with one solution

What a matcher gets to know of a problem is limited. Of the trees it sees the content, of the
subtrees the heights and sizes, and of the index the pairs that a round takes and the answers that
the comparison confirms. Problems that agree in this much have one and the same mapping.

* `MatchProblem.SameAnswers`: two problems that agree so far
* `MatchProblem.SameAnswers.solve`: they have the same mapping, under all options
-/

namespace CallDelta

namespace MatchProblem

/-- Two problems that a matcher cannot tell apart. -/
structure SameAnswers (p p' : MatchProblem) : Prop where
  src : p.src.SameContent p'.src
  dst : p.dst.SameContent p'.dst
  srcHeight : p.srcHeight = p'.srcHeight
  dstHeight : p.dstHeight = p'.dstHeight
  srcSize : p.srcSize = p'.srcSize
  dstSize : p.dstSize = p'.dstSize
  uniquePairs : ∀ m height, p.uniquePairs m height = p'.uniquePairs m height
  alike : ∀ s d, (p.alike s d && p.equal s d) = (p'.alike s d && p'.equal s d)

namespace SameAnswers

variable {p p' : MatchProblem}

/-! ## The rounds -/

theorem linkSubtreesAll (h : p.SameAnswers p') : p.linkSubtreesAll = p'.linkSubtreesAll := by
  have hone : p.linkSubtrees = p'.linkSubtrees := by
    funext m s d
    unfold linkSubtrees
    rw [h.src.preOrder, h.dst.preOrder]
  funext m tops
  unfold MatchProblem.linkSubtreesAll
  rw [hone]

theorem heightRound (h : p.SameAnswers p') : p.heightRound = p'.heightRound := by
  funext m height
  unfold MatchProblem.heightRound
  rw [h.uniquePairs, h.linkSubtreesAll]

theorem topDown (h : p.SameAnswers p') (minHeight : Nat) :
    p.topDown minHeight = p'.topDown minHeight := by
  have hheights : p.heights minHeight = p'.heights minHeight := by
    unfold heights
    rw [h.srcHeight, h.dstHeight, h.src.root, h.dst.root]
  unfold MatchProblem.topDown
  rw [hheights, h.heightRound]

/-! ## Similarity -/

theorem sameType (h : p.SameAnswers p') : p.sameType = p'.sameType := by
  funext s d
  unfold MatchProblem.sameType
  rw [h.src.typeName, h.dst.typeName]

theorem similarity (h : p.SameAnswers p') : p.similarity = p'.similarity := by
  funext s d shared
  unfold MatchProblem.similarity totalBelow
  rw [h.srcSize, h.dstSize]

theorem sharedTally (h : p.SameAnswers p') : p.sharedTally = p'.sharedTally := by
  funext m s
  unfold MatchProblem.sharedTally partnersBelow
  rw [h.src.descendants, h.dst.size, h.dst.ancestors]

theorem mostSimilar (h : p.SameAnswers p') : p.mostSimilar = p'.mostSimilar := by
  funext m s
  unfold MatchProblem.mostSimilar candidates
  rw [h.sharedTally, h.sameType, h.similarity, h.dst.ids]

/-! ## The children of a pair -/

theorem freeSrcChildren (h : p.SameAnswers p') : p.freeSrcChildren = p'.freeSrcChildren := by
  funext m s
  unfold MatchProblem.freeSrcChildren
  rw [h.src.children]

theorem freeDstChildren (h : p.SameAnswers p') : p.freeDstChildren = p'.freeDstChildren := by
  funext m d
  unfold MatchProblem.freeDstChildren
  rw [h.dst.children]

theorem equalChildren (h : p.SameAnswers p') : p.equalChildren = p'.equalChildren := by
  funext m s d
  -- the index is asked only together with the comparison
  have hagree : (fun a b => p.freeSrc m a && p.freeDst m b && p.alike a b && p.equal a b) =
      fun a b => p'.freeSrc m a && p'.freeDst m b && p'.alike a b && p'.equal a b := by
    funext a b
    unfold freeSrc freeDst
    rw [Bool.and_assoc, Bool.and_assoc _ (p'.alike a b), h.alike, h.src.preOrder, h.dst.preOrder]
  unfold MatchProblem.equalChildren
  rw [hagree, h.freeSrcChildren, h.freeDstChildren]

theorem loneChildren (h : p.SameAnswers p') : p.loneChildren = p'.loneChildren := by
  funext m s d
  unfold MatchProblem.loneChildren
  rw [h.freeSrcChildren, h.freeDstChildren, h.sameType, h.src.typeName]

theorem linkLone (h : p.SameAnswers p') : p.linkLone = p'.linkLone := by
  funext m pair
  unfold MatchProblem.linkLone onlyLeaves
  rw [h.src.children, h.dst.children, h.sameType]

theorem recover (h : p.SameAnswers p') : p.recover = p'.recover := by
  funext m s d
  unfold MatchProblem.recover
  rw [h.equalChildren, h.linkSubtreesAll, h.loneChildren, h.linkLone]

/-! ## The pass -/

theorem partner? (h : p.SameAnswers p') : p.partner? = p'.partner? := by
  funext threshold m s
  unfold MatchProblem.partner?
  rw [h.src.root, h.dst.root, h.sameType, h.src.children, h.mostSimilar]

theorem settle (h : p.SameAnswers p') : p.settle = p'.settle := by
  funext threshold m s
  unfold MatchProblem.settle settlePair
  rw [h.partner?, h.recover]

theorem bottomUp (h : p.SameAnswers p') : p.bottomUp = p'.bottomUp := by
  funext threshold m
  unfold MatchProblem.bottomUp
  rw [h.src.ids, h.settle]

/-- **Problems that agree in what a matcher gets to know have the same mapping.** -/
theorem solve (h : p.SameAnswers p') (options : MatchOptions) :
    p.solve options = p'.solve options := by
  unfold MatchProblem.solve
  rw [h.topDown, h.bottomUp]

end SameAnswers

end MatchProblem

end CallDelta

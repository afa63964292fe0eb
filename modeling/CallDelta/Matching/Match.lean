import CallDelta.Matching.BottomUp
import CallDelta.Matching.TopDown

/-!
# Matching two trees

Unique equal subtrees are paired first, and the nodes above and beside them afterwards.
-/

namespace CallDelta

/-- The mapping of a problem. -/
def MatchProblem.solve (p : MatchProblem) (options : MatchOptions) : Mapping :=
  p.bottomUp options.threshold (p.topDown options.minHeight)

/-- The mapping between two trees. -/
def matchTrees (options : MatchOptions) (src dst : Tree) : Mapping :=
  (MatchProblem.ofTrees src dst).solve options

end CallDelta

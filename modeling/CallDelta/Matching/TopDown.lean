import CallDelta.Matching.Problem

/-!
# Pairing unique equal subtrees

From the tallest subtrees down to the least height, a source subtree is paired with a destination
subtree of its height if the two are equal and no other unpaired subtree of that height is like them
on either side. Subtrees of one height do not overlap, so the pairs of one round do not get in each
other's way.
-/

namespace CallDelta

namespace MatchProblem

variable (p : MatchProblem)

/-- The unpaired source nodes of a height. -/
def srcCandidates (m : Mapping) (height : Nat) : List Nat :=
  p.src.ids.filter (fun s => !m.hasSrc s && p.srcHeight s == height)

/-- The unpaired destination nodes of a height. -/
def dstCandidates (m : Mapping) (height : Nat) : List Nat :=
  p.dst.ids.filter (fun d => !m.hasDst d && p.dstHeight d == height)

/-- The partner of a source node among candidates of its height, if both sides are unique. -/
def uniquePartner? (srcs dsts : List Nat) (s : Nat) : Option Nat :=
  match srcs.filter (p.alikeSrc s), dsts.filter (p.alike s) with
  | [_], [d] => if p.equal s d then some d else none
  | _, _ => none

/-- The subtrees of a height that are paired in its round. -/
def uniquePairs (m : Mapping) (height : Nat) : List (Nat × Nat) :=
  let srcs := p.srcCandidates m height
  let dsts := p.dstCandidates m height
  srcs.filterMap (fun s => (p.uniquePartner? srcs dsts s).map (fun d => (s, d)))

/-- The round of one height. -/
def heightRound (m : Mapping) (height : Nat) : Mapping :=
  p.linkSubtreesAll m (p.uniquePairs m height)

/-- The heights from that of the taller tree down to the least, which is at least 1. -/
def heights (minHeight : Nat) : List Nat :=
  let least := max minHeight 1
  let most := max (p.srcHeight p.src.root) (p.dstHeight p.dst.root)
  (List.range' least (most + 1 - least)).reverse

/-- The mapping after the rounds of all heights. -/
def topDown (minHeight : Nat) : Mapping := (p.heights minHeight).foldl p.heightRound .empty

end MatchProblem

end CallDelta

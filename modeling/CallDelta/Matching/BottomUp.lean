import CallDelta.Matching.CommonSubsequence
import CallDelta.Matching.Problem
import CallDelta.Tally

/-!
# Pairing nodes by what lies below them

From the last source node to the first, so that descendants come before ancestors, an unpaired inner
node is paired with the destination node that is most similar to it. Similarity is the share of
descendants that are partners of each other. Candidates are the unpaired nodes of the same type
above the partners of the node's descendants. The two roots are paired whenever they are free and of
one type.

After each such pair its children get another chance (`recover`): first children with equal and
wholly unpaired subtrees, as many as can be paired without crossing; then children whose type occurs
once on each side, and with them their only leaf.

Main statements: `of_sharedTally`, by which one pass over the partners counts the shared descendants
of all destination nodes, and `mem_candidates`, which says what the candidates are.
-/

namespace CallDelta

namespace MatchProblem

variable (p : MatchProblem)

/-! ## Similarity -/

/-- The partners of the descendants of `s`. -/
def partnersBelow (m : Mapping) (s : Nat) : List Nat := (p.src.descendants s).filterMap m.dstOf?

/-- The number of descendants of `s` with a partner below `d`. -/
def sharedBelow (m : Mapping) (s d : Nat) : Nat :=
  ((p.partnersBelow m s).filter (p.dst.isAncestor d)).length

/-- The numbers `sharedBelow m s d` for all destination nodes `d`. Each partner counts for all of
its ancestors. -/
def sharedTally (m : Mapping) (s : Nat) : Tally :=
  .ofList p.dst.size ((p.partnersBelow m s).flatMap p.dst.ancestors)

theorem of_sharedTally (m : Mapping) (s : Nat) {d : Nat} (h : d < p.dst.size) :
    (p.sharedTally m s).of d = p.sharedBelow m s d := by
  rw [sharedTally, Tally.of_ofList _ h, sharedBelow]
  induction p.partnersBelow m s with
  | nil => rfl
  | cons partner rest ih =>
    rw [List.flatMap_cons, List.count_append, p.dst.count_ancestors, ih, List.filter_cons]
    by_cases ha : p.dst.isAncestor d partner <;> simp [ha, Nat.add_comm]

/-- The number of descendants of `s` and of `d` together. -/
def totalBelow (s d : Nat) : Nat := (p.srcSize s - 1) + (p.dstSize d - 1)

/-- Twice the shared descendants over all descendants. -/
def similarity (s d shared : Nat) : Float :=
  let total := p.totalBelow s d
  if total = 0 then 0 else (2 * shared).toFloat / total.toFloat

/-- The unpaired nodes of the same type as `s` above the partners of its descendants, in increasing
order. With each goes the number of descendants that it shares with `s`. -/
def candidates (m : Mapping) (s : Nat) : List (Nat × Nat) :=
  let shared := p.sharedTally m s
  p.dst.ids.filterMap (fun d =>
    if 0 < shared.of d && !m.hasDst d && p.sameType s d then some (d, shared.of d) else none)

theorem mem_candidates {m : Mapping} {s d shared : Nat} :
    (d, shared) ∈ p.candidates m s ↔
      d < p.dst.size ∧ shared = p.sharedBelow m s d ∧ 0 < shared ∧
        m.hasDst d = false ∧ p.sameType s d = true := by
  simp only [candidates, List.mem_filterMap, Tree.ids, List.mem_range]
  constructor
  · rintro ⟨d', hd', h⟩
    rw [p.of_sharedTally m s hd'] at h
    split at h
    · next hc =>
      simp only [Option.some.injEq, Prod.mk.injEq] at h
      obtain ⟨rfl, rfl⟩ := h
      simpa [and_assoc, hd'] using hc
    · simp at h
  · rintro ⟨hd, rfl, hpos, hfree, htype⟩
    exact ⟨d, hd, by simp [p.of_sharedTally m s hd, hpos, hfree, htype]⟩

/-- The first of the most similar candidates, with its similarity. -/
def mostSimilar (m : Mapping) (s : Nat) : Option (Nat × Float) :=
  (p.candidates m s).foldl
    (fun best (d, shared) =>
      let score := p.similarity s d shared
      match best with
      | none => some (d, score)
      | some (_, top) => if top < score then some (d, score) else best)
    none

/-! ## Another chance for the children of a pair -/

/-- Children of a pair whose subtrees are equal and wholly unpaired, without crossing. -/
def equalChildren (m : Mapping) (s d : Nat) : List (Nat × Nat) :=
  commonSubsequence
    (fun a b => p.freeSrc m a && p.freeDst m b && p.alike a b && p.equal a b)
    (p.freeSrcChildren m s) (p.freeDstChildren m d)

/-- Children of a pair whose type occurs once among the unpaired children on each side. -/
def loneChildren (m : Mapping) (s d : Nat) : List (Nat × Nat) :=
  let srcs := p.freeSrcChildren m s
  let dsts := p.freeDstChildren m d
  srcs.filterMap (fun c =>
    match srcs.filter (fun c' => p.src.typeName c' == p.src.typeName c),
      dsts.filter (p.sameType c) with
    | [_], [d'] => some (c, d')
    | _, _ => none)

/-- The only leaves below two nodes, if each has one child, both children are leaves, and they are
of one type. This is what makes a renamed callee a change of its token's label. -/
def onlyLeaves (s d : Nat) : List (Nat × Nat) :=
  match p.src.children s, p.dst.children d with
  | [a], [b] =>
    if (p.src.children a).isEmpty && (p.dst.children b).isEmpty && p.sameType a b then [(a, b)]
    else []
  | _, _ => []

/-- Pairs two nodes and their only leaves. -/
def linkLone (m : Mapping) (pair : Nat × Nat) : Mapping :=
  (m.link pair.1 pair.2).linkAll (p.onlyLeaves pair.1 pair.2)

/-- Pairs children of a fresh pair. -/
def recover (m : Mapping) (s d : Nat) : Mapping :=
  let m := p.linkSubtreesAll m (p.equalChildren m s d)
  (p.loneChildren m s d).foldl p.linkLone m

/-- Pairs two nodes and gives their children another chance. -/
def settlePair (m : Mapping) (s d : Nat) : Mapping := p.recover (m.link s d) s d

/-! ## The pass -/

/-- The partner that a source node gets in the pass. -/
def partner? (threshold : Float) (m : Mapping) (s : Nat) : Option Nat :=
  if m.hasSrc s then none
  else if s = p.src.root then
    if !m.hasDst p.dst.root && p.sameType s p.dst.root then some p.dst.root else none
  else if (p.src.children s).isEmpty then none
  else
    match p.mostSimilar m s with
    | some (d, score) => if threshold ≤ score then some d else none
    | none => none

/-- The step of the pass at one source node. -/
def settle (threshold : Float) (m : Mapping) (s : Nat) : Mapping :=
  match p.partner? threshold m s with
  | some d => p.settlePair m s d
  | none => m

/-- The mapping after the pass over all source nodes. -/
def bottomUp (threshold : Float) (m : Mapping) : Mapping :=
  p.src.ids.reverse.foldl (p.settle threshold) m

end MatchProblem

end CallDelta

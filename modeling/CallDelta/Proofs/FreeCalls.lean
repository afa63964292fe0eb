import CallDelta.Proofs.ReportedCalls
import Mathlib.Data.List.Basic

/-!
# Calls in whole inserted and deleted subtrees

Three walks lead to a call that is reported with a whole subtree: one over the tree in post-order or
by levels, one that looks for paired nodes below each node, and one that locates calls. Together
they amount to one filter on the pre-order: a call is found if nothing in its subtree is paired and
no such call lies above it. Tops of free subtrees are apart, so that post-order and pre-order list
them alike.

* `Tree.flatMap_topCalls`: the three walks are one filter
* `calls_of_whole_subtrees`: the calls that are deleted and inserted with whole subtrees
-/

namespace CallDelta

namespace Tree

variable {t : Tree} {paired : Nat → Bool} {i a c : Nat}

/-- A call without a paired node in its subtree. -/
def isFreeCall (t : Tree) (paired : Nat → Bool) (i : Nat) : Bool := t.isCall i && t.isFree paired i

/-- A free call that does not lie in another one. -/
def isOuterFreeCall (t : Tree) (paired : Nat → Bool) (i : Nat) : Bool :=
  t.isFreeCall paired i && (t.ancestors i).all (fun a => !t.isFreeCall paired a)

/-- The calls located at the top of a free subtree. -/
def topCalls (t : Tree) (paired : Nat → Bool) (i : Nat) : List Nat :=
  if t.isFree paired i && !t.belowFree paired i then t.locateCalls (some i) else []

theorem topCalls_of_isTop (h : t.IsTop paired i) :
    t.topCalls paired i = t.locateCalls (some i) := by
  simp [topCalls, h.1, h.2]

theorem topCalls_of_not_isTop (h : ¬ t.IsTop paired i) : t.topCalls paired i = [] := by
  rw [topCalls, if_neg]
  simpa [IsTop] using h

/-! ## Below a top -/

/-- Above a top nothing is free. -/
theorem IsTop.eq_of_free_above (h : t.IsTop paired i) (ha : a < t.size) (hai : t.Within a i)
    (hfree : t.isFree paired a = true) : a = i := by
  cases hai with
  | refl => rfl
  | step hp hap =>
    have hpf := isFree_of_within ha hfree hap
    rw [h.parent_not_free hp] at hpf
    cases hpf

/-- The outer calls of a largest free subtree are the outer free calls in it. -/
theorem IsTop.isOuterFreeCall_iff (hi : i < t.size) (h : t.IsTop paired i) (hic : t.Within i c) :
    t.isOuterFreeCall paired c = true ↔ t.IsOuterCall i c := by
  have hfree : t.isFree paired c = true := isFree_of_within hi h.1 hic
  simp only [isOuterFreeCall, isFreeCall, hfree, Bool.and_true, Bool.and_eq_true, List.all_eq_true,
    mem_ancestors_iff, Bool.not_eq_true', Bool.and_eq_false_imp]
  constructor
  · rintro ⟨hcall, habove⟩
    refine ⟨hcall, hic, fun k hik hkc hk => Decidable.byContradiction fun hne => ?_⟩
    have hnot := habove k ⟨hkc, hne⟩ hk
    rw [isFree_of_within hi h.1 hik] at hnot
    cases hnot
  · intro hc
    refine ⟨hc.isCall, fun a ⟨hac, hne⟩ hacall => Bool.eq_false_iff.mpr fun hafree => hne ?_⟩
    -- a free call above `c` lies in the subtree of the top, since nothing above the top is free
    rcases hic.comparable hac with hia | hai
    · exact hc.outer a hia hac hacall
    · have hai' := h.eq_of_free_above (lt_size_of_isCall hacall) hai hafree
      exact hc.outer a (hai' ▸ .refl) hac hacall

theorem IsTop.locateCalls_eq_filter (hi : i < t.size) (h : t.IsTop paired i) :
    t.locateCalls (some i) = (t.preOrder i).filter (t.isOuterFreeCall paired) := by
  refine eq_filter_of_sublist (t.preOrder_nodup i) (t.locateCalls_sublist i) fun c hc => ?_
  rw [mem_locateCalls_iff, h.isOuterFreeCall_iff hi (mem_preOrder_iff.mp hc).2]

/-- Only the top of a free subtree has calls to tell. -/
theorem IsTop.flatMap_topCalls (hi : i < t.size) (h : t.IsTop paired i) :
    (t.postOrder i).flatMap (t.topCalls paired) = t.locateCalls (some i) := by
  have hbelow : ((t.children i).flatMap t.postOrder).flatMap (t.topCalls paired) = [] := by
    refine List.flatMap_eq_nil_iff.mpr fun j hj => topCalls_of_not_isTop fun hj' => ?_
    obtain ⟨c, hc, hj⟩ := List.mem_flatMap.mp hj
    have hcj : t.Within c j := by
      rw [postOrder, List.mem_reverse, (t.visitFromRight_perm _).mem_iff] at hj
      exact (mem_preOrder_iff.mp hj).2
    have hij := h.eq_of_within hi hj' ((Within.of_parent? (mem_children.mp hc)).trans hcj)
    exact Nat.not_lt.mpr (hij ▸ hcj.le) (lt_of_mem_children hc)
  rw [postOrder_eq_append hi, List.flatMap_append, hbelow, List.flatMap_singleton,
    topCalls_of_isTop h, List.nil_append]

/-! ## The whole tree -/

/-- **Locating calls at the tops in post-order finds the outer free calls in pre-order.** -/
theorem flatMap_topCalls (hi : i < t.size) (hb : t.belowFree paired i = false) :
    (t.postOrder i).flatMap (t.topCalls paired) =
      (t.preOrder i).filter (t.isOuterFreeCall paired) := by
  induction i using induction_children (t := t) with
  | h i ih =>
    cases hf : t.isFree paired i with
    | true =>
      have htop : t.IsTop paired i := ⟨hf, hb⟩
      rw [htop.flatMap_topCalls hi, htop.locateCalls_eq_filter hi]
    | false =>
      -- the node itself tells nothing, and its children are not below a free node
      have hhere : t.topCalls paired i = [] := topCalls_of_not_isTop fun htop => by
        rw [htop.1] at hf
        cases hf
      have hnot : ¬ t.isOuterFreeCall paired i = true := by
        simp [isOuterFreeCall, isFreeCall, hf]
      rw [postOrder_eq_append hi, preOrder_eq_flatMap hi, List.flatMap_append,
        List.flatMap_singleton, hhere, List.append_nil, List.filter_cons_of_neg hnot,
        List.flatMap_assoc, List.filter_flatMap]
      refine List.flatMap_congr fun c hc => ih c hc (lt_size_of_mem_children hc) ?_
      rw [belowFree, mem_children.mp hc, Option.any_some, hf]

theorem flatMap_topCalls_root (t : Tree) (paired : Nat → Bool) :
    (t.postOrder t.root).flatMap (t.topCalls paired) =
      (t.preOrder t.root).filter (t.isOuterFreeCall paired) := by
  refine flatMap_topCalls t.root_lt_size ?_
  rw [belowFree, parent?_root, Option.any_none]

end Tree

/-! ## The calls of one kind of action -/

/-- The call that an event is about, if the event comes from an action of a kind. -/
def ChangeEvent.callBy? (kind : ActionKind) : ChangeEvent → Option Nat
  | .call _ action _ callNode => if action = kind then some callNode else none
  | .rename .. => none

/-- The calls that a script reports for its actions of a kind, in the order of the events. -/
def EditScript.callsBy (kind : ActionKind) (trees : TreePair) (script : EditScript) : List Nat :=
  (script.events trees).filterMap (·.callBy? kind)

theorem Action.filterMap_callBy? (kind : ActionKind) (trees : TreePair) (a : Action) (index : Nat) :
    (a.events trees index).filterMap (·.callBy? kind) =
      if a.kind = kind then a.calls trees else [] := by
  cases h : a.kind.carriesCalls with
  | true =>
    rw [events_of_carriesCalls h, List.filterMap_map]
    by_cases hk : a.kind = kind <;> simp [ChangeEvent.callBy?, hk]
  | false =>
    have hnone : ∀ e ∈ a.events trees index, e.callBy? kind = none := by
      intro e he
      have hcall := call?_eq_none_of_not_carriesCalls h he
      cases e with
      | call => cases hcall
      | rename => rfl
    rw [List.filterMap_eq_nil_iff.mpr hnone]
    simp [calls, h]

namespace EditScript

variable {src dst : Tree} {m : Mapping}

theorem callsBy_eq_flatMap (kind : ActionKind) (trees : TreePair) (script : EditScript) :
    script.callsBy kind trees =
      script.flatMap (fun a => if a.kind = kind then a.calls trees else []) := by
  conv => rhs; rw [← List.zipIdx_map_fst 0 script, List.flatMap_map]
  simp only [callsBy, events, List.filterMap_flatMap, Action.filterMap_callBy?]

theorem callsBy_append (kind : ActionKind) (trees : TreePair) (xs ys : EditScript) :
    callsBy kind trees (xs ++ ys) = xs.callsBy kind trees ++ ys.callsBy kind trees := by
  simp only [callsBy_eq_flatMap, List.flatMap_append]

theorem callsBy_flatMap (kind : ActionKind) (trees : TreePair) (l : List Nat)
    (f : Nat → EditScript) :
    callsBy kind trees (l.flatMap f) = l.flatMap (fun i => (f i).callsBy kind trees) := by
  simp only [callsBy_eq_flatMap, List.flatMap_assoc]

theorem callsBy_eq_nil {kind : ActionKind} {trees : TreePair} {script : EditScript}
    (h : ∀ a ∈ script, a.kind ≠ kind) : script.callsBy kind trees = [] := by
  rw [callsBy_eq_flatMap, List.flatMap_eq_nil_iff]
  exact fun a ha => if_neg (h a ha)

theorem callsBy_deleteTree_atSource {s : Nat} (hs : s < src.size) :
    callsBy .deleteTree ⟨src, dst⟩ (atSource src m s) = src.topCalls m.hasSrc s := by
  by_cases htop : src.IsTop m.hasSrc s
  · rw [atSource_of_isTop (Tree.paired_eq_false_of_isFree hs htop.1) htop,
      Tree.topCalls_of_isTop htop, callsBy_eq_flatMap, List.flatMap_singleton]
    exact if_pos rfl
  · rw [Tree.topCalls_of_not_isTop htop]
    refine callsBy_eq_nil fun a ha => ?_
    rcases mem_atSource_iff.mp ha with ⟨-, -, rfl⟩ | ⟨-, ht, -⟩
    · simp [Action.kind]
    · exact absurd ht htop

theorem callsBy_insertTree_atDestination {x : Nat} (hx : x < dst.size) :
    callsBy .insertTree ⟨src, dst⟩ (atDestination src dst m x) = dst.topCalls m.hasDst x := by
  by_cases htop : dst.IsTop m.hasDst x
  · have hfree := Mapping.hasDst_eq_false_iff.mp (Tree.paired_eq_false_of_isFree hx htop.1)
    rw [atDestination_of_unpaired hfree, insertion_of_isTop htop, Tree.topCalls_of_isTop htop,
      callsBy_eq_flatMap, List.flatMap_singleton]
    exact if_pos rfl
  · rw [Tree.topCalls_of_not_isTop htop]
    refine callsBy_eq_nil fun a ha => ?_
    rcases mem_atDestination_iff.mp ha with ⟨-, -, rfl⟩ | ⟨-, ht, -⟩ | ⟨s, -, -, rfl⟩ |
      ⟨s, px, ps, -, -, -, -, rfl⟩
    · simp [Action.kind]
    · exact absurd ht htop
    · simp [Action.kind]
    · simp [Action.kind]

theorem callsBy_deleteTree_ofMapping :
    (ofMapping src dst m).callsBy .deleteTree ⟨src, dst⟩ =
      (src.postOrder src.root).flatMap (src.topCalls m.hasSrc) := by
  have hfirst : callsBy .deleteTree ⟨src, dst⟩
      (dst.breadthFirst.flatMap (atDestination src dst m)) = [] := by
    refine callsBy_eq_nil fun a ha hk => ?_
    obtain ⟨x, -, ha⟩ := List.mem_flatMap.mp ha
    have hdel := isDeletion_of_mem_atDestination ha
    rw [Action.isDeletion, hk] at hdel
    cases hdel
  rw [ofMapping_eq, callsBy_append, hfirst, List.nil_append, callsBy_flatMap]
  exact List.flatMap_congr fun s hs => callsBy_deleteTree_atSource (Tree.mem_postOrder_root.mp hs)

theorem callsBy_insertTree_ofMapping :
    (ofMapping src dst m).callsBy .insertTree ⟨src, dst⟩ =
      dst.breadthFirst.flatMap (dst.topCalls m.hasDst) := by
  have hlast : callsBy .insertTree ⟨src, dst⟩
      ((src.postOrder src.root).flatMap (atSource src m)) = [] := by
    refine callsBy_eq_nil fun a ha hk => ?_
    obtain ⟨s, -, ha⟩ := List.mem_flatMap.mp ha
    have hdel := isDeletion_of_mem_atSource ha
    rw [Action.isDeletion, hk] at hdel
    cases hdel
  rw [ofMapping_eq, callsBy_append, hlast, List.append_nil, callsBy_flatMap]
  exact List.flatMap_congr fun x hx =>
    callsBy_insertTree_atDestination (Tree.mem_breadthFirst.mp hx)

end EditScript

/-- **The calls that are deleted with whole subtrees are the outer free calls of the source, in
pre-order, and those that are inserted with whole subtrees are the outer free calls of the
destination. Each is reported once.** -/
theorem calls_of_whole_subtrees (src dst : Tree) (m : Mapping) :
    let script := EditScript.ofMapping src dst m
    let deleted := script.callsBy .deleteTree ⟨src, dst⟩
    let inserted := script.callsBy .insertTree ⟨src, dst⟩
    deleted = (src.preOrder src.root).filter (src.isOuterFreeCall m.hasSrc) ∧ deleted.Nodup ∧
      inserted.Perm ((dst.preOrder dst.root).filter (dst.isOuterFreeCall m.hasDst)) ∧
      inserted.Nodup := by
  intro script deleted inserted
  have hdeleted : deleted = (src.preOrder src.root).filter (src.isOuterFreeCall m.hasSrc) :=
    EditScript.callsBy_deleteTree_ofMapping.trans (src.flatMap_topCalls_root m.hasSrc)
  -- the order of the walk over the destination plays no part for the set of tops
  have hinserted :
      inserted.Perm ((dst.preOrder dst.root).filter (dst.isOuterFreeCall m.hasDst)) := by
    rw [← dst.flatMap_topCalls_root m.hasDst,
      show inserted = _ from EditScript.callsBy_insertTree_ofMapping]
    exact (dst.breadthFirst_perm_ids.trans dst.postOrder_root_perm_ids.symm).flatMap_right _
  refine ⟨hdeleted, ?_, hinserted, hinserted.nodup_iff.mpr ((dst.preOrder_nodup _).filter _)⟩
  rw [hdeleted]
  exact (src.preOrder_nodup _).filter _

end CallDelta

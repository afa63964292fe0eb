import CallDelta.Calls.Record
import CallDelta.Proofs.MatchingRoots
import CallDelta.Proofs.PairedInStep
import CallDelta.Proofs.ScriptActions
import CallDelta.Tree.Growth
import Mathlib.Data.List.Nodup

/-!
# Isomorphic trees are paired node by node

There are two ways to the mapping of two trees with isomorphic roots. If the least height lets the
round of the roots take place, that round pairs the two trees as wholes. If it is too large, no
round takes place and the bottom-up phase finds nothing to compare until it comes to the roots. It
pairs them, and their children are recovered in order, each with its whole subtree.

* `MatchProblem.solve_of_equal_roots`: both ways pair the two walks in pre-order node by node
* `matchTrees_of_isomorphic`: the same for two trees, with the empty script and the empty report
-/

namespace CallDelta

namespace MatchProblem

variable {p : MatchProblem} {m : Mapping} {s minHeight : Nat}

/-! ## The round of the roots -/

theorem heights_eq_cons {most : Nat}
    (hmost : max (p.srcHeight p.src.root) (p.dstHeight p.dst.root) = most)
    (hle : max minHeight 1 ≤ most) : ∃ rest, p.heights minHeight = most :: rest := by
  obtain ⟨n, hn⟩ := Nat.exists_eq_add_of_le hle
  refine ⟨(List.range' (max minHeight 1) n).reverse, ?_⟩
  have hlen : most + 1 - max minHeight 1 = n + 1 := by omega
  simp only [heights, hmost, hlen]
  rw [List.range'_concat, List.reverse_concat, Nat.one_mul, ← hn]

theorem heights_eq_nil {most : Nat}
    (hmost : max (p.srcHeight p.src.root) (p.dstHeight p.dst.root) = most)
    (hlt : most < max minHeight 1) : p.heights minHeight = [] := by
  have hlen : most + 1 - max minHeight 1 = 0 := by omega
  simp only [heights, hmost, hlen]
  rfl

/-- The round of equal roots pairs the two trees as wholes. -/
theorem heightRound_of_equal_roots (hp : p.Sound) (heq : p.equal p.src.root p.dst.root = true) :
    p.heightRound .empty (p.srcHeight p.src.root) =
      p.linkSubtrees .empty p.src.root p.dst.root := by
  have hdsts : p.dstCandidates .empty (p.srcHeight p.src.root) = [p.dst.root] := by
    rw [hp.height_eq heq]
    exact dstCandidates_root hp
  have hpartner : p.uniquePartner? [p.src.root] [p.dst.root] p.src.root = some p.dst.root := by
    simp [uniquePartner?, hp.alikeSrc_self heq, hp.alike_of_equal heq, heq]
  simp [heightRound, uniquePairs, srcCandidates_root hp, hdsts, hpartner, linkSubtreesAll]

/-! ## The bottom-up phase from nothing -/

theorem mostSimilar_empty (p : MatchProblem) (s : Nat) : p.mostSimilar .empty s = none := by
  have hnone : p.candidates .empty s = [] := by
    refine List.eq_nil_iff_forall_not_mem.mpr fun ⟨d, shared⟩ hmem => ?_
    obtain ⟨-, rfl, hpos, -⟩ := p.mem_candidates.mp hmem
    simp [sharedBelow, partnersBelow] at hpos
  rw [mostSimilar, hnone]
  rfl

theorem settle_empty (threshold : Float) (hs : s ≠ p.src.root) :
    p.settle threshold .empty s = .empty := by
  have hnone : p.partner? threshold .empty s = none := by
    unfold partner?
    rw [if_neg (by simp [Mapping.hasSrc]), if_neg hs, mostSimilar_empty]
    split <;> rfl
  rw [settle, hnone]

/-- From nothing, the phase does nothing until it comes to the roots. -/
theorem bottomUp_empty (p : MatchProblem) (threshold : Float) :
    p.bottomUp threshold .empty = p.settle threshold .empty p.src.root := by
  obtain ⟨n, hn⟩ : ∃ n, p.src.size = n + 1 :=
    ⟨p.src.size - 1, by have := p.src.root_lt_size; omega⟩
  -- the root has the least number, so it comes last
  have hids : p.src.ids.reverse = (List.range' 1 n).reverse ++ [p.src.root] := by
    rw [Tree.ids, hn, List.range_eq_range', List.range'_succ, List.reverse_cons]
    rfl
  have hidle : (List.range' 1 n).reverse.foldl (p.settle threshold) .empty = .empty := by
    refine List.foldlRecOn (motive := fun m : Mapping => m = .empty) _ _ rfl ?_
    rintro _ rfl s hs
    refine settle_empty threshold ?_
    have := (List.mem_range'_1.mp (List.mem_reverse.mp hs)).1
    exact Nat.pos_iff_ne_zero.mp this
  rw [bottomUp, hids, List.foldl_append, hidle]
  rfl

/-! ## Recovering the children of the roots -/

/-- After linking the roots only the roots are paired. -/
theorem dstOf?_link_roots {d : Nat}
    (h : (Mapping.empty.link p.src.root p.dst.root).dstOf? s = some d) :
    s = p.src.root ∧ d = p.dst.root := by
  rcases Mapping.dstOf?_link_iff.mp h with h | ⟨-, -, hs, hd⟩
  · simp at h
  · exact ⟨hs, hd⟩

theorem hasSrc_link_roots (hs : s ≠ p.src.root) :
    (Mapping.empty.link p.src.root p.dst.root).hasSrc s = false := by
  refine Bool.eq_false_iff.mpr fun h => ?_
  obtain ⟨d, hd⟩ := Mapping.hasSrc_iff.mp h
  exact hs (dstOf?_link_roots hd).1

theorem hasDst_link_roots {d : Nat} (hd : d ≠ p.dst.root) :
    (Mapping.empty.link p.src.root p.dst.root).hasDst d = false := by
  refine Bool.eq_false_iff.mpr fun h => ?_
  obtain ⟨s, hs⟩ := Mapping.hasDst_iff.mp h
  exact hd (dstOf?_link_roots (Mapping.dstOf?_eq_some_iff.mpr hs)).2

/-- The children of equal roots are paired in order. -/
theorem equalChildren_roots (hp : p.Sound) (heq : p.equal p.src.root p.dst.root = true) :
    p.equalChildren (Mapping.empty.link p.src.root p.dst.root) p.src.root p.dst.root =
      (p.src.children p.src.root).zip (p.dst.children p.dst.root) := by
  have hsrcs : p.freeSrcChildren (Mapping.empty.link p.src.root p.dst.root) p.src.root =
      p.src.children p.src.root := by
    refine List.filter_eq_self.mpr fun c hc => ?_
    rw [hasSrc_link_roots (Nat.ne_of_gt (Tree.lt_of_mem_children hc))]
    rfl
  have hdsts : p.freeDstChildren (Mapping.empty.link p.src.root p.dst.root) p.dst.root =
      p.dst.children p.dst.root := by
    refine List.filter_eq_self.mpr fun c hc => ?_
    rw [hasDst_link_roots (Nat.ne_of_gt (Tree.lt_of_mem_children hc))]
    rfl
  rw [equalChildren, hsrcs, hdsts]
  refine commonSubsequence_eq_zip (List.forall₂_iff_zip.mpr
    ⟨(Isomorphic.children heq).length_eq, fun {a b} hab => ?_⟩)
  have hiso : p.equal a b = true := (List.forall₂_iff_zip.mp (Isomorphic.children heq)).2 hab
  obtain ⟨ha, hb⟩ := List.of_mem_zip hab
  have hfreeSrc : p.freeSrc (Mapping.empty.link p.src.root p.dst.root) a = true := by
    refine List.all_eq_true.mpr fun j hj => ?_
    have hlt := Nat.lt_of_lt_of_le (Tree.lt_of_mem_children ha) (Tree.mem_preOrder_iff.mp hj).2.le
    rw [hasSrc_link_roots (Nat.ne_of_gt hlt)]
    rfl
  have hfreeDst : p.freeDst (Mapping.empty.link p.src.root p.dst.root) b = true := by
    refine List.all_eq_true.mpr fun j hj => ?_
    have hlt := Nat.lt_of_lt_of_le (Tree.lt_of_mem_children hb) (Tree.mem_preOrder_iff.mp hj).2.le
    rw [hasDst_link_roots (Nat.ne_of_gt hlt)]
    rfl
  simp [hfreeSrc, hfreeDst, hp.alike_of_equal hiso, hiso]

theorem loneChildren_of_full {d : Nat} (h : p.Full m) : p.loneChildren m s d = [] := by
  have hnone : p.freeSrcChildren m s = [] := by
    refine List.filter_eq_nil_iff.mpr fun c hc => ?_
    rw [h c (Tree.lt_size_of_mem_children hc)]
    decide
  simp [loneChildren, hnone]

theorem settle_of_equal_roots (hp : p.Sound) (heq : p.equal p.src.root p.dst.root = true)
    (threshold : Float) :
    p.settle threshold .empty p.src.root = p.linkSubtrees .empty p.src.root p.dst.root := by
  have hpartner : p.partner? threshold .empty p.src.root = some p.dst.root := by
    have htype : p.sameType p.src.root p.dst.root = true :=
      beq_iff_eq.mpr (fits_of_equal heq).typeName_eq
    simp [partner?, Mapping.hasSrc, Mapping.hasDst, htype]
  have hsubtrees : p.linkSubtreesAll (Mapping.empty.link p.src.root p.dst.root)
      (p.equalChildren (Mapping.empty.link p.src.root p.dst.root) p.src.root p.dst.root) =
        p.linkSubtrees .empty p.src.root p.dst.root := by
    rw [equalChildren_roots hp heq, linkSubtreesAll_zip (Isomorphic.children heq), linkSubtrees,
      Tree.preOrder_eq_cons p.src.root_lt_size, Tree.preOrder_eq_cons p.dst.root_lt_size]
    rfl
  rw [settle, hpartner]
  show p.recover _ _ _ = _
  unfold recover
  simp only [hsubtrees, loneChildren_of_full (full_linkSubtrees_root heq), List.foldl_nil]

/-- **Equal roots are paired with all that is below them, whatever the options.** -/
theorem solve_of_equal_roots (hp : p.Sound) (heq : p.equal p.src.root p.dst.root = true)
    (options : MatchOptions) :
    p.solve options = p.linkSubtrees .empty p.src.root p.dst.root := by
  have hmost : max (p.srcHeight p.src.root) (p.dstHeight p.dst.root) = p.srcHeight p.src.root := by
    rw [← hp.height_eq heq, Nat.max_self]
  by_cases hle : max options.minHeight 1 ≤ p.srcHeight p.src.root
  · -- the round of the roots is the first, and it leaves nothing to the others
    obtain ⟨rest, hheights⟩ := heights_eq_cons hmost hle
    have hfull := full_linkSubtrees_root heq
    rw [solve, topDown, hheights, List.foldl_cons, heightRound_of_equal_roots hp heq,
      hfull.foldl_heightRound, hfull.bottomUp_eq_self]
  · -- no round at all
    rw [solve, topDown, heights_eq_nil hmost (Nat.lt_of_not_le hle), List.foldl_nil,
      bottomUp_empty, settle_of_equal_roots hp heq]

end MatchProblem

/-! ## Two trees -/

variable {src dst : Tree}

/-- Pairing isomorphic trees in step leaves no node, label or parent to edit. -/
theorem ofMapping_eq_nil_of_zip {m : Mapping} (hiso : Isomorphic src dst src.root dst.root)
    (hm : ∀ s d, m.dstOf? s = some d ↔
      (s, d) ∈ (src.preOrder src.root).zip (dst.preOrder dst.root)) :
    EditScript.ofMapping src dst m = [] := by
  have hstep : PairedInStep m src dst src.root dst.root := by
    refine ⟨hiso, List.forall₂_iff_zip.mpr ⟨(forall₂_preOrder hiso).length_eq, ?_⟩⟩
    exact fun hmem => (hm _ _).mpr hmem
  refine EditScript.ofMapping_eq_nil_iff.mpr ⟨fun s hs => ?_, fun x hx => ?_, fun s x _ hsx => ?_⟩
  · exact hstep.hasSrc (Tree.mem_preOrder_root hs)
  · exact hstep.hasDst (Tree.mem_preOrder_root hx)
  · have hsx := Mapping.dstOf?_eq_some_iff.mpr hsx
    have hs := (List.of_mem_zip ((hm s x).mp hsx)).1
    refine ⟨hstep.label?_eq hs hsx, fun px ps hpx hps => hstep.dstOf?_parent ?_ hsx hps hpx⟩
    obtain ⟨hroot, hwithin⟩ := Tree.mem_preOrder_iff.mp hs
    refine Tree.mem_descendants_iff.mpr ⟨hroot, hwithin, ?_⟩
    -- a root has no parent
    rintro rfl
    rw [Tree.parent?_root] at hps
    cases hps

/-- **Isomorphic trees are paired in step, and there is nothing to edit and nothing to report.** -/
theorem matchTrees_of_isomorphic (options : MatchOptions) (src dst : Tree)
    (hiso : isomorphic src src.root dst dst.root = true) :
    (matchTrees options src dst).pairs.Perm
        ((src.preOrder src.root).zip (dst.preOrder dst.root)) ∧
      EditScript.ofMapping src dst (matchTrees options src dst) = [] ∧
      (EditScript.ofMapping src dst (matchTrees options src dst)).records ⟨src, dst⟩ = [] := by
  have hsolve := MatchProblem.solve_of_equal_roots (MatchProblem.sound_ofTrees src dst) hiso options
  have hpairs : ∀ s d, (matchTrees options src dst).dstOf? s = some d ↔
      (s, d) ∈ (src.preOrder src.root).zip (dst.preOrder dst.root) := by
    intro s d
    rw [matchTrees, hsolve]
    exact MatchProblem.dstOf?_linkSubtrees_empty (p := .ofTrees src dst) hiso
  have hscript := ofMapping_eq_nil_of_zip hiso hpairs
  have hzip : ((src.preOrder src.root).zip (dst.preOrder dst.root)).Nodup := by
    refine List.Nodup.of_map Prod.fst ?_
    rw [List.map_fst_zip (Nat.le_of_eq (forall₂_preOrder hiso).length_eq)]
    exact src.preOrder_nodup src.root
  refine ⟨(List.perm_ext_iff_of_nodup (Mapping.pairs_nodup _) hzip).mpr ?_, hscript, ?_⟩
  · rintro ⟨s, d⟩
    rw [Mapping.mem_pairs_iff]
    exact hpairs s d
  · rw [hscript]
    rfl

/-- The call `f(x)`, numbered level by level and without kinds. -/
def callByLevels : Tree :=
  let identifier : NodeData := { kind := .other, typeName := "identifier" }
  let token (name : String) : NodeData :=
    { kind := .other, typeName := "token", label := some name }
  let root : Tree := .single { kind := .other, typeName := "call_expression" }
  (((root.add 0 identifier).add 0 identifier).add 1 (token "f")).add 2 (token "x")

/-- The same call, numbered in pre-order and with kinds. -/
def callInPreOrder : Tree :=
  .ofRose (callRose [identifierRose "f" none, identifierRose "x" none] none)

/-- The least height is above both trees and the threshold is not a number. -/
theorem matchTrees_call_renumbered :
    isomorphic callByLevels callByLevels.root callInPreOrder callInPreOrder.root = true ∧
      (matchTrees ⟨9, 0 / 0⟩ callByLevels callInPreOrder).pairs.Perm
        [(0, 0), (1, 1), (3, 2), (2, 3), (4, 4)] ∧
      EditScript.ofMapping callByLevels callInPreOrder
        (matchTrees ⟨9, 0 / 0⟩ callByLevels callInPreOrder) = [] := by
  have hiso :
      isomorphic callByLevels callByLevels.root callInPreOrder callInPreOrder.root = true := by
    decide +kernel
  have hzip : (callByLevels.preOrder callByLevels.root).zip
      (callInPreOrder.preOrder callInPreOrder.root) = [(0, 0), (1, 1), (3, 2), (2, 3), (4, 4)] := by
    decide +kernel
  obtain ⟨hpairs, hscript, -⟩ := matchTrees_of_isomorphic ⟨9, 0 / 0⟩ _ _ hiso
  rw [hzip] at hpairs
  exact ⟨hiso, hpairs, hscript⟩

end CallDelta

import CallDelta.Proofs.HeightRounds
import CallDelta.Proofs.PairedInStep
import CallDelta.Proofs.ReportedCalls

/-!
# Unique equal subtrees

A subtree that is in both trees once is paired with itself, wherever it moved: in the round of its
own height, or before as a part of a taller subtree. In the second case its partner is the same,
since pairs of the top-down phase are equal. Nothing is inserted, deleted or updated in such a
subtree, and nothing below its top is moved.

* `MatchProblem.Unique.forall₂_solve`: unique equal subtrees are paired in step
* `EditScript.spares_ofMapping`: subtrees that are paired in step are left alone
* `matchTrees_of_unique`: both together, for digests without collisions
-/

namespace CallDelta

namespace MatchProblem

variable {p : MatchProblem} {m : Mapping} {s d level : Nat}

/-- Equal subtrees that are like no other subtrees. -/
structure Unique (p : MatchProblem) (s d : Nat) : Prop where
  equal : p.equal s d = true
  src_eq : ∀ a, a < p.src.size → p.alikeSrc s a = true → a = s
  dst_eq : ∀ b, b < p.dst.size → p.alike s b = true → b = d

/-! ## The top-down phase -/

namespace Unique

/-- No node but `d` is equal to `s`. -/
theorem eq_dst (hp : p.Sound) (h : p.Unique s d) {b : Nat} (heq : p.equal s b = true) : b = d :=
  h.dst_eq b (fits_of_equal heq).dst_lt (hp.alike_of_equal heq)

/-- No node but `s` is equal to `d`. -/
theorem eq_src (hp : p.Sound) (h : p.Unique s d) {a : Nat} (heq : p.equal a d = true) : a = s :=
  h.src_eq a (fits_of_equal heq).src_lt (hp.alikeSrc_of_equal h.equal heq)

theorem mem_uniquePairs (hp : p.Sound) (h : p.Unique s d) (hs : m.hasSrc s = false)
    (hd : m.hasDst d = false) : (s, d) ∈ p.uniquePairs m (p.srcHeight s) := by
  have hfits := fits_of_equal h.equal
  have hsrc : s ∈ p.srcCandidates m (p.srcHeight s) :=
    mem_srcCandidates_iff.mpr ⟨hfits.src_lt, hs, rfl⟩
  have hdst : d ∈ p.dstCandidates m (p.srcHeight s) :=
    mem_dstCandidates_iff.mpr ⟨hfits.dst_lt, hd, (hp.height_eq h.equal).symm⟩
  refine mem_uniquePairs_iff.mpr ⟨hsrc, uniquePartner?_eq_some_iff.mpr ⟨⟨s, ?_⟩, ?_, h.equal⟩⟩
  · refine filter_eq_singleton (List.nodup_range.filter _) hsrc fun a ha => ⟨?_, ?_⟩
    · exact h.src_eq a (mem_srcCandidates_iff.mp ha).1
    · rintro rfl
      exact hp.alikeSrc_self h.equal
  · refine filter_eq_singleton (List.nodup_range.filter _) hdst fun b hb => ⟨?_, ?_⟩
    · exact h.dst_eq b (mem_dstCandidates_iff.mp hb).1
    · rintro rfl
      exact hp.alike_of_equal h.equal

/-- After the round of their height, unique equal subtrees are paired. -/
theorem dstOf?_heightRound (hp : p.Sound) (h : p.Unique s d) (hm : p.LinkedDownTo level m)
    (hlt : p.srcHeight s < level) : (p.heightRound m (p.srcHeight s)).dstOf? s = some d := by
  refine (dstOf?_heightRound_iff hp hm hlt).mpr ?_
  cases hs : m.dstOf? s with
  | some b =>
    -- a taller subtree has taken `s` along, with an equal node
    exact Or.inl (congrArg some (h.eq_dst hp (hm.equal hs)))
  | none =>
    have hd : m.srcOf? d = none := by
      refine Option.eq_none_iff_forall_ne_some.mpr fun a ha => ?_
      have had := Mapping.dstOf?_eq_some_iff.mpr ha
      rw [h.eq_src hp (hm.equal had), hs] at had
      cases had
    have hmem := h.mem_uniquePairs hp (Mapping.hasSrc_eq_false_iff.mpr hs)
      (Mapping.hasDst_eq_false_iff.mpr hd)
    exact Or.inr (mem_linksBelow (fun _ => equal_of_mem_uniquePairs) hmem)

end Unique

/-! ## Pairs are kept -/

theorem dstOf?_foldl_heightRound (heights : List Nat) (h : m.dstOf? s = some d) :
    (heights.foldl p.heightRound m).dstOf? s = some d := by
  refine List.foldlRecOn (motive := fun m' : Mapping => m'.dstOf? s = some d) heights _ h ?_
  intro m' hm' height _
  exact heightRound_induction (P := fun m' => m'.dstOf? s = some d) hm'
    fun _ hm' _ _ a b _ _ => Mapping.dstOf?_link_of_dstOf? hm' a b

theorem dstOf?_bottomUp (threshold : Float) (h : m.dstOf? s = some d) :
    (p.bottomUp threshold m).dstOf? s = some d :=
  bottomUp_induction (P := fun m' => m'.dstOf? s = some d) threshold h
    fun _ hm' a b _ _ => Mapping.dstOf?_link_of_dstOf? hm' a b

/-! ## A whole run -/

theorem srcHeight_le_root (hp : p.Sound) (hs : s < p.src.size) :
    p.srcHeight s ≤ p.srcHeight p.src.root :=
  height_le_of_within hp.srcHeight_lt (.of_root hs)

theorem Unique.dstOf?_topDown (hp : p.Sound) (h : p.Unique s d) {minHeight : Nat}
    (hmin : max minHeight 1 ≤ p.srcHeight s) : (p.topDown minHeight).dstOf? s = some d := by
  have hroot := srcHeight_le_root hp (fits_of_equal h.equal).src_lt
  have hmem : p.srcHeight s ∈ p.heights minHeight := mem_heights_iff.mpr ⟨hmin, by omega⟩
  obtain ⟨before, after, hcut⟩ := List.append_of_mem hmem
  have hfalling := p.heights_pairwise minHeight
  rw [hcut] at hfalling
  -- before the round of `s` there are the taller rounds only
  have hlinked : p.LinkedDownTo (p.srcHeight s + 1) (before.foldl p.heightRound .empty) := by
    refine linkedDownTo_of_heights_eq hp hcut fun k hk => ?_
    exact (List.pairwise_append.mp hfalling).2.2 k hk _ List.mem_cons_self
  rw [topDown, hcut, List.foldl_append, List.foldl_cons]
  exact dstOf?_foldl_heightRound after (h.dstOf?_heightRound hp hlinked (Nat.lt_succ_self _))

/-- **Unique equal subtrees are paired in step.** -/
theorem Unique.forall₂_solve (hp : p.Sound) (h : p.Unique s d) (options : MatchOptions)
    (hmin : max options.minHeight 1 ≤ p.srcHeight s) :
    List.Forall₂ (fun a b => (p.solve options).dstOf? a = some b)
      (p.src.preOrder s) (p.dst.preOrder d) := by
  have hlinked : p.LinkedDownTo 0 (p.topDown options.minHeight) :=
    linkedDownTo_of_heights_eq hp (List.append_nil _).symm fun k _ => Nat.zero_le k
  refine (hlinked.preOrder (h.dstOf?_topDown hp hmin)).imp fun a b hab => ?_
  exact dstOf?_bottomUp options.threshold hab

end MatchProblem

/-! ## Subtrees that are left alone -/

namespace EditScript

variable {src dst : Tree} {m : Mapping} {s d : Nat}

/-- A script inserts, deletes and updates no node of two subtrees and moves none below their
tops. -/
structure Spares (src dst : Tree) (s d : Nat) (script : EditScript) : Prop where
  inserted : ∀ a ∈ script, ∀ x ∈ dst.preOrder d,
    a.names .insertNode x = false ∧ a.spans .insertTree dst x = false
  deleted : ∀ a ∈ script, ∀ i ∈ src.preOrder s,
    a.names .deleteNode i = false ∧ a.spans .deleteTree src i = false
  updated : ∀ a ∈ script, ∀ i ∈ src.preOrder s, a.names .updateNode i = false
  moved : ∀ a ∈ script, ∀ i ∈ src.descendants s, a.names .move i = false

/-- **Subtrees that are paired in step are left alone.** -/
theorem spares_ofMapping (h : PairedInStep m src dst s d) :
    (ofMapping src dst m).Spares src dst s d where
  inserted a ha x hx :=
    accountsForSide_destination.not_named_of_paired (Tree.lt_size_of_mem_preOrder hx)
      (h.hasDst hx) a ha
  deleted a ha i hi :=
    accountsForSide_source.not_named_of_paired (Tree.lt_size_of_mem_preOrder hi) (h.hasSrc hi) a ha
  updated a ha i hi := by
    refine Bool.eq_false_iff.mpr fun hnames => ?_
    obtain ⟨hkind, rfl⟩ := Action.names_eq_true_iff.mp hnames
    obtain ⟨x, hx, hne⟩ := label?_ne_of_mem_ofMapping ha hkind
    exact hne (h.label?_eq hi hx)
  moved a ha i hi := by
    refine Bool.eq_false_iff.mpr fun hnames => ?_
    obtain ⟨hkind, rfl⟩ := Action.names_eq_true_iff.mp hnames
    obtain ⟨x, px, ps, hx, hpx, hps, hne⟩ := parent?_ne_of_mem_ofMapping ha hkind
    exact hne (h.dstOf?_parent hi hx hps hpx)

/-- Calls in subtrees that are paired in step are not reported as deleted. -/
theorem call_notMem_events (h : PairedInStep m src dst s d) {index node c : Nat}
    (hc : c ∈ src.preOrder s) :
    .call index .deleteTree node c ∉ (ofMapping src dst m).events ⟨src, dst⟩ := by
  intro he
  rcases exists_call_event_iff.mp ⟨index, he⟩ with ⟨hk, -⟩ | ⟨hk, -⟩ | ⟨-, htop, hcall⟩
  · cases hk
  · cases hk
  · have hfree := htop.paired_call_eq_false hcall
    rw [h.hasSrc hc] at hfree
    cases hfree

end EditScript

/-! ## Two trees -/

/-- Digests tell the subtrees of two trees apart: those with one digest are isomorphic. -/
def DigestsDiscern (src dst : Tree) : Prop :=
  ∀ s < src.size, ∀ d < dst.size,
    (src.measures.of s).digest = (dst.measures.of d).digest → isomorphic src s dst d = true

instance (src dst : Tree) : Decidable (DigestsDiscern src dst) :=
  inferInstanceAs (Decidable (∀ s < src.size, ∀ d < dst.size,
    (src.measures.of s).digest = (dst.measures.of d).digest → isomorphic src s dst d = true))

theorem MatchProblem.Discerns.ofTrees {src dst : Tree} (h : DigestsDiscern src dst) :
    (MatchProblem.ofTrees src dst).Discerns where
  equal_of_alike hs hd halike := h _ hs _ hd (beq_iff_eq.mp halike)
  equal_of_alikeSrc {s a d} ha heq halike := by
    -- the digest of `a` is that of `s` and so that of `d`
    have hsd := congrArg Measure.digest (measures_eq_of_isomorphic heq)
    exact h a ha d (isomorphic_iff.mp heq).2.1 ((beq_iff_eq.mp halike).symm.trans hsd)

theorem MatchProblem.unique_ofTrees {src dst : Tree} {s d : Nat} (hdigest : DigestsDiscern src dst)
    (hiso : isomorphic src s dst d = true)
    (hsrc : ∀ a < src.size, isomorphic src a dst d = true → a = s)
    (hdst : ∀ b < dst.size, isomorphic src s dst b = true → b = d) :
    (MatchProblem.ofTrees src dst).Unique s d where
  equal := hiso
  src_eq a ha halike := hsrc a ha ((Discerns.ofTrees hdigest).equal_of_alikeSrc ha hiso halike)
  dst_eq b hb halike :=
    hdst b hb ((Discerns.ofTrees hdigest).equal_of_alike (isomorphic_iff.mp hiso).1 hb halike)

/-- **A subtree that both trees have once is kept.** Its nodes are paired in pre-order, none of them
is inserted, deleted or updated, none below its top is moved, and none of its calls is reported as
deleted. -/
theorem matchTrees_of_unique (options : MatchOptions) (src dst : Tree) (s d : Nat)
    (hdigest : DigestsDiscern src dst)
    (hheight : max options.minHeight 1 ≤ (src.measures.of s).height)
    (hiso : isomorphic src s dst d = true)
    (hsrc : ∀ a < src.size, isomorphic src a dst d = true → a = s)
    (hdst : ∀ b < dst.size, isomorphic src s dst b = true → b = d) :
    let m := matchTrees options src dst
    let script := EditScript.ofMapping src dst m
    List.Forall₂ (fun a b => m.dstOf? a = some b) (src.preOrder s) (dst.preOrder d) ∧
      script.Spares src dst s d ∧
      ∀ index node c, c ∈ src.preOrder s →
        .call index .deleteTree node c ∉ script.events ⟨src, dst⟩ := by
  intro m script
  have hunique := MatchProblem.unique_ofTrees hdigest hiso hsrc hdst
  have hstep : PairedInStep m src dst s d :=
    ⟨hiso, hunique.forall₂_solve (MatchProblem.sound_ofTrees src dst) options hheight⟩
  exact ⟨hstep.pairs, EditScript.spares_ofMapping hstep, fun _ _ _ hc =>
    EditScript.call_notMem_events hstep hc⟩

/-- A call under a condition, put under another one. The call is paired along with its condition, in
an earlier round than its own. -/
theorem matchTrees_condition_under_condition :
    let src := fileOf (ifOf [callOfF])
    let dst := fileOf (ifOf [ifOf [callOfF]])
    let m := matchTrees {} src dst
    let script := EditScript.ofMapping src dst m
    (DigestsDiscern src dst ∧ (src.measures.of 2).height = 3 ∧ (src.measures.of 1).height = 4 ∧
      isomorphic src 2 dst 3 = true) ∧
      List.Forall₂ (fun a b => m.dstOf? a = some b) [2, 3, 4] [3, 4, 5] ∧
      script.Spares src dst 2 3 ∧
      ∀ index node, .call index .deleteTree node 2 ∉ script.events ⟨src, dst⟩ := by
  intro src dst m script
  obtain ⟨hdigest, hheight, hcondition, hiso⟩ : DigestsDiscern src dst ∧
      (src.measures.of 2).height = 3 ∧ (src.measures.of 1).height = 4 ∧
      isomorphic src 2 dst 3 = true := by
    decide +kernel
  have hsrc : src.preOrder 2 = [2, 3, 4] := by decide +kernel
  have hdst : dst.preOrder 3 = [3, 4, 5] := by decide +kernel
  obtain ⟨hpairs, hspares, hcalls⟩ := matchTrees_of_unique {} src dst 2 3 hdigest
    (Nat.le_trans (by decide) (Nat.le_of_eq hheight.symm)) hiso (by decide +kernel)
    (by decide +kernel)
  rw [hsrc, hdst] at hpairs
  refine ⟨⟨hdigest, hheight, hcondition, hiso⟩, hpairs, hspares, fun index node =>
    hcalls index node 2 ?_⟩
  rw [hsrc]
  exact List.mem_cons_self

end CallDelta

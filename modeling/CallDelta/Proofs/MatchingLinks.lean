import CallDelta.Matching.Match
import CallDelta.Proofs.CommonSubsequence
import CallDelta.Proofs.Isomorphism
import CallDelta.Proofs.Linking

/-!
# What a matcher links

A matcher changes its mapping by links only. Here the links of each phase are listed, so that a fact
about a run is proved by looking at one link.

* `MatchProblem.topDown_induction`: the top-down phase links isomorphic nodes
* `MatchProblem.bottomUp_induction`: the bottom-up phase links nodes of one type, and the source
  root with the destination root only
* `MatchProblem.fits_of_dstOf?_solve`: all pairs are known nodes of one type
* `matchTrees_corresponds`: a matching is a one-to-one correspondence between such nodes
-/

namespace CallDelta

namespace MatchProblem

variable {p : MatchProblem} {m : Mapping} {s d height : Nat} {P : Mapping → Prop}

/-- Known nodes of one type. -/
structure Fits (p : MatchProblem) (s d : Nat) : Prop where
  src_lt : s < p.src.size
  dst_lt : d < p.dst.size
  typeName_eq : p.src.typeName s = p.dst.typeName d

theorem fits_of_equal (h : p.equal s d = true) : p.Fits s d := by
  obtain ⟨hs, hd, htype, -⟩ := isomorphic_iff.mp h
  exact ⟨hs, hd, htype⟩

/-! ## Whole subtrees -/

theorem linkSubtrees_induction (heq : p.equal s d = true) (hm : P m)
    (step : ∀ m, P m → ∀ s' d', p.src.Within s s' → p.equal s' d' = true → P (m.link s' d')) :
    P (p.linkSubtrees m s d) := by
  refine Mapping.linkAll_induction hm fun m hm pair hpair => ?_
  have hwithin := (Tree.mem_preOrder_iff.mp (List.of_mem_zip hpair).1).2
  exact step m hm pair.1 pair.2 hwithin (isomorphic_of_mem_zip_preOrder heq hpair)

theorem linkSubtreesAll_induction {tops : List (Nat × Nat)}
    (heq : ∀ top ∈ tops, p.equal top.1 top.2 = true) (hm : P m)
    (step : ∀ m, P m → ∀ top ∈ tops, ∀ s' d', p.src.Within top.1 s' → p.equal s' d' = true →
      P (m.link s' d')) :
    P (p.linkSubtreesAll m tops) :=
  List.foldlRecOn tops _ hm fun _ hm top htop =>
    linkSubtrees_induction (heq top htop) hm fun m hm => step m hm top htop

/-- Subtrees that are linked one after the other are linked as one walk. -/
theorem linkSubtreesAll_zip {xs ys : List Nat}
    (h : List.Forall₂ (Isomorphic p.src p.dst) xs ys) (m : Mapping) :
    p.linkSubtreesAll m (xs.zip ys) = m.linkAll ((p.src.visit xs).zip (p.dst.visit ys)) := by
  induction h generalizing m with
  | nil => simp [linkSubtreesAll]
  | @cons a b xs ys hab _ ih =>
    obtain ⟨ha, hb, -⟩ := isomorphic_iff.mp hab
    have hlen := (forall₂_preOrder hab).length_eq
    rw [Tree.visit_cons_of_lt ha, Tree.visit_cons_of_lt hb, List.zip_append hlen,
      Mapping.linkAll_append, ← linkSubtrees, ← ih]
    rfl

/-! ## The top-down phase -/

theorem mem_srcCandidates_iff :
    s ∈ p.srcCandidates m height ↔
      s < p.src.size ∧ m.hasSrc s = false ∧ p.srcHeight s = height := by
  simp [srcCandidates, Tree.mem_ids]

theorem mem_dstCandidates_iff :
    d ∈ p.dstCandidates m height ↔
      d < p.dst.size ∧ m.hasDst d = false ∧ p.dstHeight d = height := by
  simp [dstCandidates, Tree.mem_ids]

theorem uniquePartner?_eq_some_iff {srcs dsts : List Nat} :
    p.uniquePartner? srcs dsts s = some d ↔
      (∃ a, srcs.filter (p.alikeSrc s) = [a]) ∧ dsts.filter (p.alike s) = [d] ∧
        p.equal s d = true := by
  unfold uniquePartner?
  split
  · next a b ha hb =>
    rw [ha, hb]
    by_cases heq : p.equal s b = true
    · simp only [heq, if_true, Option.some.injEq, List.cons.injEq, and_true, exists_eq', true_and]
      constructor
      · rintro rfl
        exact ⟨rfl, heq⟩
      · exact fun h => h.1
    · rw [if_neg heq]
      constructor
      · intro h
        cases h
      · rintro ⟨-, hb, heq'⟩
        cases hb
        exact absurd heq' heq
  · next hne =>
    constructor
    · intro h
      cases h
    · rintro ⟨⟨a, ha⟩, hb, -⟩
      exact absurd hb (hne a d ha)

theorem mem_uniquePairs_iff :
    (s, d) ∈ p.uniquePairs m height ↔
      s ∈ p.srcCandidates m height ∧
        p.uniquePartner? (p.srcCandidates m height) (p.dstCandidates m height) s = some d := by
  simp [uniquePairs, List.mem_filterMap]

theorem mem_uniquePairs {top : Nat × Nat} (h : top ∈ p.uniquePairs m height) :
    top.1 ∈ p.srcCandidates m height ∧ top.2 ∈ p.dstCandidates m height ∧
      p.equal top.1 top.2 = true := by
  obtain ⟨hs, hpartner⟩ := mem_uniquePairs_iff.mp h
  obtain ⟨-, hd, heq⟩ := uniquePartner?_eq_some_iff.mp hpartner
  have hmem : top.2 ∈ (p.dstCandidates m height).filter (p.alike top.1) :=
    hd ▸ List.mem_singleton_self _
  exact ⟨hs, (List.mem_filter.mp hmem).1, heq⟩

/-- A round links nodes below its candidates. -/
theorem heightRound_induction (hm : P m)
    (step : ∀ m', P m' → ∀ c ∈ p.srcCandidates m height, ∀ s d, p.src.Within c s →
      p.equal s d = true → P (m'.link s d)) :
    P (p.heightRound m height) :=
  linkSubtreesAll_induction (fun _ htop => (mem_uniquePairs htop).2.2) hm
    fun m' hm' top htop => step m' hm' top.1 (mem_uniquePairs htop).1

theorem topDown_induction (minHeight : Nat) (hempty : P .empty)
    (step : ∀ m, P m → ∀ s d, p.equal s d = true → P (m.link s d)) : P (p.topDown minHeight) :=
  List.foldlRecOn _ _ hempty fun _ hm _ _ =>
    heightRound_induction hm fun m' hm' _ _ s d _ => step m' hm' s d

/-! ## Another chance for the children of a pair -/

theorem mem_equalChildren {pair : Nat × Nat} (h : pair ∈ p.equalChildren m s d) :
    pair.1 ∈ p.src.children s ∧ p.equal pair.1 pair.2 = true ∧
      p.freeSrc m pair.1 = true ∧ p.freeDst m pair.2 = true := by
  obtain ⟨hs, -, hrelated⟩ := mem_commonSubsequence h
  simp only [Bool.and_eq_true] at hrelated
  obtain ⟨⟨hfree, -⟩, heq⟩ := hrelated
  exact ⟨(List.mem_filter.mp hs).1, heq, hfree⟩

theorem mem_loneChildren_iff {c c' : Nat} :
    (c, c') ∈ p.loneChildren m s d ↔
      c ∈ p.freeSrcChildren m s ∧
        (∃ a,
          (p.freeSrcChildren m s).filter (fun a => p.src.typeName a == p.src.typeName c) = [a]) ∧
        (p.freeDstChildren m d).filter (p.sameType c) = [c'] := by
  unfold loneChildren
  rw [List.mem_filterMap]
  constructor
  · rintro ⟨a, ha, h⟩
    split at h
    · next x y hx hy =>
      cases h
      exact ⟨ha, ⟨x, hx⟩, hy⟩
    · cases h
  · rintro ⟨hc, ⟨a, ha⟩, hc'⟩
    exact ⟨c, hc, by simp [ha, hc']⟩

theorem mem_loneChildren {pair : Nat × Nat} (h : pair ∈ p.loneChildren m s d) :
    pair.1 ∈ p.freeSrcChildren m s ∧ pair.2 ∈ p.freeDstChildren m d ∧ p.Fits pair.1 pair.2 := by
  obtain ⟨hsrc, -, hdst⟩ := mem_loneChildren_iff.mp h
  obtain ⟨hmem, htype⟩ := List.mem_filter.mp (hdst ▸ List.mem_singleton_self pair.2)
  exact ⟨hsrc, hmem, Tree.lt_size_of_mem_children (List.mem_filter.mp hsrc).1,
    Tree.lt_size_of_mem_children (List.mem_filter.mp hmem).1, beq_iff_eq.mp htype⟩

theorem mem_onlyLeaves {pair : Nat × Nat} (h : pair ∈ p.onlyLeaves s d) :
    pair.1 ∈ p.src.children s ∧ pair.2 ∈ p.dst.children d ∧ p.src.children pair.1 = [] ∧
      p.Fits pair.1 pair.2 := by
  unfold onlyLeaves at h
  split at h
  · next a b ha hb =>
    split at h
    · next hcond =>
      cases List.mem_singleton.mp h
      have hsrc : a ∈ p.src.children s := ha ▸ List.mem_singleton_self a
      have hdst : b ∈ p.dst.children d := hb ▸ List.mem_singleton_self b
      simp only [Bool.and_eq_true, List.isEmpty_iff] at hcond
      exact ⟨hsrc, hdst, hcond.1.1, Tree.lt_size_of_mem_children hsrc,
        Tree.lt_size_of_mem_children hdst, beq_iff_eq.mp hcond.2⟩
    · cases h
  · cases h

/-- Recovery links nodes below the top of the pair. -/
theorem recover_induction (hm : P m)
    (step : ∀ m, P m → ∀ s' d', s < s' → p.Fits s' d' → P (m.link s' d')) :
    P (p.recover m s d) := by
  refine List.foldlRecOn _ _ ?_ fun m hm pair hpair => ?_
  · refine linkSubtreesAll_induction (fun top htop => (mem_equalChildren htop).2.1) hm ?_
    intro m hm top htop s' d' hwithin heq
    have hlt := Tree.lt_of_mem_children (mem_equalChildren htop).1
    exact step m hm s' d' (Nat.lt_of_lt_of_le hlt hwithin.le) (fits_of_equal heq)
  · obtain ⟨hc, -, hfits⟩ := mem_loneChildren hpair
    have hlt := Tree.lt_of_mem_children (List.mem_filter.mp hc).1
    refine Mapping.linkAll_induction (step m hm _ _ hlt hfits) fun m hm leaf hleaf => ?_
    obtain ⟨hl, -, -, hleafFits⟩ := mem_onlyLeaves hleaf
    exact step m hm _ _ (Nat.lt_trans hlt (Tree.lt_of_mem_children hl)) hleafFits

/-! ## The bottom-up phase -/

theorem mem_candidates_of_mostSimilar {score : Float}
    (h : p.mostSimilar m s = some (d, score)) : ∃ shared, (d, shared) ∈ p.candidates m s := by
  unfold mostSimilar at h
  revert h
  refine List.foldlRecOn (motive := fun best => best = some (d, score) → _) _ _ ?_ ?_
  · intro h
    cases h
  · intro best ih candidate hcandidate h
    dsimp only at h
    split at h
    · cases h
      exact ⟨_, hcandidate⟩
    · split at h
      · cases h
        exact ⟨_, hcandidate⟩
      · exact ih h

/-- Only unpaired nodes get each other as partners: the root gets the root, and an inner node a
candidate. -/
theorem partner?_cases {threshold : Float} (h : p.partner? threshold m s = some d) :
    m.hasSrc s = false ∧ m.hasDst d = false ∧
      (s = p.src.root ∧ d = p.dst.root ∧ p.sameType s d = true ∨
        s ≠ p.src.root ∧ p.src.children s ≠ [] ∧ ∃ shared, (d, shared) ∈ p.candidates m s) := by
  unfold partner? at h
  split at h
  · cases h
  · next hfree =>
    refine ⟨Bool.eq_false_iff.mpr hfree, ?_⟩
    split at h
    · next hroot =>
      split at h
      · next hcond =>
        cases h
        simp only [Bool.and_eq_true, Bool.not_eq_true'] at hcond
        exact ⟨hcond.1, Or.inl ⟨hroot, rfl, hcond.2⟩⟩
      · cases h
    · next hroot =>
      split at h
      · cases h
      · next hinner =>
        split at h
        · next hbest =>
          split at h
          · cases h
            obtain ⟨shared, hmem⟩ := mem_candidates_of_mostSimilar hbest
            obtain ⟨-, -, -, hunpaired, -⟩ := p.mem_candidates.mp hmem
            exact ⟨hunpaired, Or.inr ⟨hroot, fun hnil => hinner (hnil ▸ rfl), shared, hmem⟩⟩
          · cases h
        · cases h

/-- The partner that a node gets is of its type, and the root gets the root. -/
theorem fits_of_partner? {threshold : Float} (hs : s < p.src.size)
    (h : p.partner? threshold m s = some d) :
    p.Fits s d ∧ (s = p.src.root → d = p.dst.root) := by
  obtain ⟨-, -, ⟨-, rfl, htype⟩ | ⟨hroot, -, shared, hmem⟩⟩ := partner?_cases h
  · exact ⟨⟨hs, p.dst.root_lt_size, beq_iff_eq.mp htype⟩, fun _ => rfl⟩
  · obtain ⟨hd, -, -, -, htype⟩ := p.mem_candidates.mp hmem
    exact ⟨⟨hs, hd, beq_iff_eq.mp htype⟩, fun hr => absurd hr hroot⟩

theorem bottomUp_induction (threshold : Float) (hm : P m)
    (step : ∀ m, P m → ∀ s d, p.Fits s d → (s = p.src.root → d = p.dst.root) → P (m.link s d)) :
    P (p.bottomUp threshold m) := by
  refine List.foldlRecOn _ _ hm fun m hm s hs => ?_
  have hlt : s < p.src.size := Tree.mem_ids.mp (List.mem_reverse.mp hs)
  unfold settle
  split
  · next d hd =>
    obtain ⟨hfits, hroot⟩ := fits_of_partner? hlt hd
    refine recover_induction (step m hm s d hfits hroot) fun m hm s' d' hlt' hfits' => ?_
    refine step m hm s' d' hfits' fun hr => ?_
    rw [hr] at hlt'
    exact absurd hlt' (Nat.not_lt_zero s)
  · exact hm

/-! ## A whole run -/

/-- **All pairs of a run are known nodes of one type.** -/
theorem fits_of_dstOf?_solve (p : MatchProblem) (options : MatchOptions)
    (h : (p.solve options).dstOf? s = some d) : p.Fits s d := by
  have hstep : ∀ m : Mapping, (∀ s d, m.dstOf? s = some d → p.Fits s d) → ∀ s d, p.Fits s d →
      ∀ s' d', (m.link s d).dstOf? s' = some d' → p.Fits s' d' := by
    intro m hm s d hfits s' d' h
    rcases Mapping.dstOf?_link_iff.mp h with h | ⟨-, -, rfl, rfl⟩
    · exact hm s' d' h
    · exact hfits
  refine bottomUp_induction (P := fun m => ∀ s d, m.dstOf? s = some d → p.Fits s d)
    options.threshold ?_ (fun m hm s d hfits _ => hstep m hm s d hfits) s d h
  exact topDown_induction options.minHeight (by simp) fun m hm s d heq =>
    hstep m hm s d (fits_of_equal heq)

/-- The same for the matching of two trees. -/
theorem fits_of_dstOf?_matchTrees {src dst : Tree} {options : MatchOptions}
    (h : (matchTrees options src dst).dstOf? s = some d) : (ofTrees src dst).Fits s d :=
  fits_of_dstOf?_solve _ options h

end MatchProblem

/-- A one-to-one correspondence between nodes of two trees, each pair of one type. -/
structure Mapping.Corresponds (src dst : Tree) (m : Mapping) : Prop where
  inverse : ∀ s d, m.dstOf? s = some d ↔ m.srcOf? d = some s
  listed : ∀ s d, (s, d) ∈ m.pairs ↔ m.dstOf? s = some d
  src_inj : ∀ {s s' d}, m.dstOf? s = some d → m.dstOf? s' = some d → s = s'
  dst_inj : ∀ {s d d'}, m.srcOf? d = some s → m.srcOf? d' = some s → d = d'
  src_lt : ∀ {s d}, m.dstOf? s = some d → s < src.size
  dst_lt : ∀ {s d}, m.dstOf? s = some d → d < dst.size
  typeName_eq : ∀ {s d}, m.dstOf? s = some d → src.typeName s = dst.typeName d

/-- **The matching of two trees is a one-to-one correspondence between nodes of one type.** -/
theorem matchTrees_corresponds (options : MatchOptions) (src dst : Tree) :
    (matchTrees options src dst).Corresponds src dst where
  inverse _ _ := Mapping.dstOf?_eq_some_iff
  listed _ _ := Mapping.mem_pairs_iff
  src_inj h h' := Mapping.dstOf?_injective h h'
  dst_inj h h' := Mapping.srcOf?_injective h h'
  src_lt h := (MatchProblem.fits_of_dstOf?_matchTrees h).src_lt
  dst_lt h := (MatchProblem.fits_of_dstOf?_matchTrees h).dst_lt
  typeName_eq h := (MatchProblem.fits_of_dstOf?_matchTrees h).typeName_eq

end CallDelta

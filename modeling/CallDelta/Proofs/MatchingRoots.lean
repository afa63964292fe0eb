import CallDelta.Proofs.MatchingLinks
import Mathlib.Data.List.Nodup

/-!
# The roots in a run of the matcher

The source root is the only source node of its height. The rounds of greater heights therefore do
nothing, its own round pairs the whole source tree or nothing, and no later round of the top-down
phase touches it. The bottom-up phase pairs it with the destination root or not at all.

* `MatchProblem.Sound`: heights and likeness as a matcher relies on them
* `MatchProblem.rootRule_solve`: if the source root ends up with another partner than the
  destination root, the destination root has no partner
* `matchTrees_root`: roots of one type that no other node has are paired with each other
-/

namespace CallDelta

namespace MatchProblem

variable {p : MatchProblem} {m : Mapping} {s d height : Nat}

/-- Heights fall from parents to children, and equal subtrees have equal heights and are alike. -/
structure Sound (p : MatchProblem) : Prop where
  srcHeight_lt : ∀ {s c}, c ∈ p.src.children s → p.srcHeight c < p.srcHeight s
  dstHeight_lt : ∀ {d c}, c ∈ p.dst.children d → p.dstHeight c < p.dstHeight d
  height_eq : ∀ {s d}, p.equal s d = true → p.srcHeight s = p.dstHeight d
  alikeSrc_of_equal : ∀ {s s' d}, p.equal s d = true → p.equal s' d = true → p.alikeSrc s s' = true
  alike_of_equal : ∀ {s d}, p.equal s d = true → p.alike s d = true

theorem Sound.alikeSrc_self (hp : p.Sound) (h : p.equal s d = true) : p.alikeSrc s s = true :=
  hp.alikeSrc_of_equal h h

theorem sound_ofTrees (src dst : Tree) : (ofTrees src dst).Sound where
  srcHeight_lt := Tree.height_lt_of_mem_children
  dstHeight_lt := Tree.height_lt_of_mem_children
  height_eq h := congrArg Measure.height (measures_eq_of_isomorphic h)
  alikeSrc_of_equal h h' := beq_iff_eq.mpr (congrArg Measure.digest
    ((measures_eq_of_isomorphic h).trans (measures_eq_of_isomorphic h').symm))
  alike_of_equal h := beq_iff_eq.mpr (congrArg Measure.digest (measures_eq_of_isomorphic h))

/-- Where heights fall from parents to children, the root is taller than all other nodes. -/
theorem height_lt_root {t : Tree} {height : Nat → Nat}
    (h : ∀ {i c}, c ∈ t.children i → height c < height i) {i : Nat} (hi : i < t.size)
    (hr : i ≠ t.root) : height i < height t.root := by
  induction i using Nat.strongRecOn with
  | _ i ih =>
    obtain ⟨q, hq⟩ := Tree.exists_parent? hi hr
    have hlt := h (Tree.mem_children.mpr hq)
    by_cases hqr : q = t.root
    · exact hqr ▸ hlt
    · have hqi := Tree.lt_of_parent? hq
      exact Nat.lt_trans hlt (ih q hqi (Nat.lt_trans hqi hi) hqr)

theorem filter_eq_singleton {l : List Nat} {q : Nat → Bool} {a : Nat} (hnodup : l.Nodup)
    (ha : a ∈ l) (hq : ∀ b ∈ l, q b = true ↔ b = a) : l.filter q = [a] := by
  have hcongr : l.filter q = l.filter (· == a) := by
    refine List.filter_congr fun b hb => ?_
    rw [Bool.eq_iff_iff, hq b hb, beq_iff_eq]
  rw [hcongr, List.filter_beq, List.count_eq_one_of_mem hnodup ha, List.replicate_one]

/-- Where heights fall from parents to children, only the root has its height. -/
theorem filter_ids_eq_root {t : Tree} {height : Nat → Nat}
    (h : ∀ {i c}, c ∈ t.children i → height c < height i) {q : Nat → Bool}
    (hroot : q t.root = true) (hq : ∀ i, q i = true → height i = height t.root) :
    t.ids.filter q = [t.root] := by
  refine filter_eq_singleton List.nodup_range (Tree.mem_ids.mpr t.root_lt_size) fun i hi => ?_
  constructor
  · intro hqi
    refine Decidable.byContradiction fun hr => ?_
    have hlt := height_lt_root h (Tree.mem_ids.mp hi) hr
    rw [hq i hqi] at hlt
    exact Nat.lt_irrefl _ hlt
  · rintro rfl
    exact hroot

theorem srcCandidates_root (hp : p.Sound) :
    p.srcCandidates .empty (p.srcHeight p.src.root) = [p.src.root] := by
  refine filter_ids_eq_root hp.srcHeight_lt (by simp [Mapping.hasSrc]) fun i hi => ?_
  simp only [Bool.and_eq_true, beq_iff_eq] at hi
  exact hi.2

theorem dstCandidates_root (hp : p.Sound) :
    p.dstCandidates .empty (p.dstHeight p.dst.root) = [p.dst.root] := by
  refine filter_ids_eq_root hp.dstHeight_lt (by simp [Mapping.hasDst]) fun i hi => ?_
  simp only [Bool.and_eq_true, beq_iff_eq] at hi
  exact hi.2

/-! ## When all source nodes are paired -/

/-- All source nodes are paired. -/
def Full (p : MatchProblem) (m : Mapping) : Prop := ∀ s, s < p.src.size → m.hasSrc s = true

theorem heightRound_eq_self (h : p.srcCandidates m height = []) : p.heightRound m height = m := by
  unfold heightRound uniquePairs
  simp [h, linkSubtreesAll]

theorem Full.srcCandidates_eq_nil (h : p.Full m) : p.srcCandidates m height = [] := by
  refine List.eq_nil_iff_forall_not_mem.mpr fun s hs => ?_
  obtain ⟨hlt, hfree, -⟩ := mem_srcCandidates_iff.mp hs
  rw [h s hlt] at hfree
  cases hfree

theorem Full.foldl_heightRound (h : p.Full m) (heights : List Nat) :
    heights.foldl p.heightRound m = m := by
  refine List.foldlRecOn (motive := fun m' => m' = m) heights _ rfl ?_
  rintro _ rfl height -
  exact heightRound_eq_self h.srcCandidates_eq_nil

theorem settle_eq_self {threshold : Float} (h : m.hasSrc s = true) :
    p.settle threshold m s = m := by
  unfold settle partner?
  rw [if_pos h]

theorem Full.bottomUp_eq_self (h : p.Full m) (threshold : Float) : p.bottomUp threshold m = m := by
  refine List.foldlRecOn (motive := fun m' => m' = m) _ _ rfl ?_
  rintro _ rfl s hs
  exact settle_eq_self (h s (Tree.mem_ids.mp (List.mem_reverse.mp hs)))

/-! ## Linking the whole source tree -/

/-- From nothing, two equal subtrees are linked completely. -/
theorem dstOf?_linkSubtrees_empty (heq : p.equal s d = true) {s' d' : Nat} :
    (p.linkSubtrees .empty s d).dstOf? s' = some d' ↔
      (s', d') ∈ (p.src.preOrder s).zip (p.dst.preOrder d) := by
  have hlen := (forall₂_preOrder heq).length_eq
  have hfst : (((p.src.preOrder s).zip (p.dst.preOrder d)).map (·.1)).Nodup := by
    rw [List.map_fst_zip (Nat.le_of_eq hlen)]
    exact p.src.preOrder_nodup s
  have hsnd : (((p.src.preOrder s).zip (p.dst.preOrder d)).map (·.2)).Nodup := by
    rw [List.map_snd_zip (Nat.le_of_eq hlen.symm)]
    exact p.dst.preOrder_nodup d
  rw [linkSubtrees, Mapping.dstOf?_linkAll_iff hfst hsnd (by simp) (by simp)]
  simp

theorem full_linkSubtrees_root (heq : p.equal p.src.root d = true) :
    p.Full (p.linkSubtrees .empty p.src.root d) := by
  intro s hs
  obtain ⟨d', hmem⟩ := exists_dst_mem_zip heq (Tree.mem_preOrder_root hs)
  exact Mapping.hasSrc_iff.mpr ⟨d', (dstOf?_linkSubtrees_empty heq).mpr hmem⟩

/-! ## The roots -/

/-- The source root has no partner, or the destination root as its partner, or all source nodes are
paired and the destination root is not. -/
def RootRule (p : MatchProblem) (m : Mapping) : Prop :=
  m.hasSrc p.src.root = false ∨ m.dstOf? p.src.root = some p.dst.root ∨
    (p.Full m ∧ m.hasDst p.dst.root = false)

theorem hasSrc_root_link (hs : s ≠ p.src.root) (h : m.hasSrc p.src.root = false) :
    (m.link s d).hasSrc p.src.root = false := by
  refine Bool.eq_false_iff.mpr fun hlinked => ?_
  obtain ⟨d', hd'⟩ := Mapping.hasSrc_iff.mp hlinked
  rcases Mapping.dstOf?_link_iff.mp hd' with hd' | ⟨-, -, he, -⟩
  · rw [Mapping.hasSrc_eq_false_iff.mp h] at hd'
    cases hd'
  · exact hs he.symm

/-- A round of another height than that of the source root leaves the root alone. -/
theorem hasSrc_root_heightRound (hne : height ≠ p.srcHeight p.src.root)
    (h : m.hasSrc p.src.root = false) :
    (p.heightRound m height).hasSrc p.src.root = false := by
  refine heightRound_induction (P := fun m => m.hasSrc p.src.root = false) h ?_
  intro m' hm' c hc s d hwithin _
  refine hasSrc_root_link (fun hr => ?_) hm'
  obtain ⟨-, -, hheight⟩ := mem_srcCandidates_iff.mp hc
  rw [hr, Tree.Within.root_iff] at hwithin
  rw [hwithin] at hheight
  exact hne hheight.symm

/-- The round of the source root's height pairs the whole source tree or nothing. -/
theorem heightRound_root (hp : p.Sound) :
    p.heightRound .empty (p.srcHeight p.src.root) = .empty ∨
      ∃ d, p.equal p.src.root d = true ∧
        p.heightRound .empty (p.srcHeight p.src.root) = p.linkSubtrees .empty p.src.root d := by
  cases hd : p.uniquePartner? [p.src.root]
      (p.dstCandidates .empty (p.srcHeight p.src.root)) p.src.root with
  | none =>
    refine Or.inl ?_
    simp [heightRound, uniquePairs, srcCandidates_root hp, hd, linkSubtreesAll]
  | some d =>
    refine Or.inr ⟨d, (uniquePartner?_eq_some_iff.mp hd).2.2, ?_⟩
    simp [heightRound, uniquePairs, srcCandidates_root hp, hd, linkSubtreesAll]

/-- A round above the height of the source root finds no candidates. -/
theorem heightRound_of_taller (hp : p.Sound) (h : p.srcHeight p.src.root < height) :
    p.heightRound m height = m := by
  refine heightRound_eq_self (List.eq_nil_iff_forall_not_mem.mpr fun s hs => ?_)
  obtain ⟨hlt, -, hheight⟩ := mem_srcCandidates_iff.mp hs
  by_cases hr : s = p.src.root
  · rw [hr] at hheight
    omega
  · have := height_lt_root hp.srcHeight_lt hlt hr
    omega

theorem rootRule_linkSubtrees_root (heq : p.equal p.src.root d = true) :
    p.RootRule (p.linkSubtrees .empty p.src.root d) := by
  have hd := (fits_of_equal heq).dst_lt
  by_cases hr : d = p.dst.root
  · refine Or.inr (Or.inl ((dstOf?_linkSubtrees_empty heq).mpr ?_))
    rw [hr, Tree.preOrder_eq_cons p.src.root_lt_size, Tree.preOrder_eq_cons p.dst.root_lt_size]
    exact List.mem_cons_self
  · refine Or.inr (Or.inr ⟨full_linkSubtrees_root heq, Bool.eq_false_iff.mpr fun htaken => ?_⟩)
    obtain ⟨s, hs⟩ := Mapping.hasDst_iff.mp htaken
    have hmem := (dstOf?_linkSubtrees_empty heq).mp (Mapping.dstOf?_eq_some_iff.mpr hs)
    exact hr (Tree.Within.root_iff.mp (Tree.mem_preOrder_iff.mp (List.of_mem_zip hmem).2).2)

theorem rootRule_foldl_heightRound (hp : p.Sound) : ∀ heights : List Nat,
    heights.Pairwise (· > ·) → p.RootRule (heights.foldl p.heightRound .empty)
  | [], _ => Or.inl (by simp [Mapping.hasSrc])
  | height :: heights, hsorted => by
    obtain ⟨hfirst, hrest⟩ := List.pairwise_cons.mp hsorted
    -- below the height of the source root no round can pair it any more
    have hbelow : ∀ hs : List Nat, (∀ h ∈ hs, h < p.srcHeight p.src.root) →
        p.RootRule (hs.foldl p.heightRound .empty) := by
      intro hs hlt
      refine Or.inl (List.foldlRecOn (motive := fun m : Mapping => m.hasSrc p.src.root = false) hs _
        (by simp [Mapping.hasSrc]) fun m hm h hh => ?_)
      exact hasSrc_root_heightRound (Nat.ne_of_lt (hlt h hh)) hm
    rcases Nat.lt_trichotomy height (p.srcHeight p.src.root) with hlt | heq | hgt
    · refine hbelow (height :: heights) fun h hh => ?_
      rcases List.mem_cons.mp hh with rfl | hh
      · exact hlt
      · exact Nat.lt_trans (hfirst h hh) hlt
    · subst heq
      rw [List.foldl_cons]
      rcases heightRound_root hp with hround | ⟨d, hd, hround⟩
      · rw [hround]
        exact hbelow heights hfirst
      · rw [hround, (full_linkSubtrees_root hd).foldl_heightRound]
        exact rootRule_linkSubtrees_root hd
    · rw [List.foldl_cons, heightRound_of_taller hp hgt]
      exact rootRule_foldl_heightRound hp heights hrest

theorem heights_pairwise (p : MatchProblem) (minHeight : Nat) :
    (p.heights minHeight).Pairwise (· > ·) :=
  List.pairwise_reverse.mpr List.pairwise_lt_range'

theorem RootRule.link (h : p.RootRule m) (hfits : p.Fits s d)
    (hroot : s = p.src.root → d = p.dst.root) : p.RootRule (m.link s d) := by
  rcases h with hfree | hpaired | ⟨hfull, hdst⟩
  · by_cases hs : s = p.src.root
    · subst hs
      rw [hroot rfl]
      by_cases htaken : m.srcOf? p.dst.root = none
      · exact Or.inr (Or.inl (Mapping.dstOf?_link_iff.mpr (Or.inr
          ⟨Mapping.hasSrc_eq_false_iff.mp hfree, htaken, rfl, rfl⟩)))
      · rw [Mapping.link_eq_self (Or.inr (Option.isSome_iff_ne_none.mpr htaken))]
        exact Or.inl hfree
    · exact Or.inl (hasSrc_root_link hs hfree)
  · exact Or.inr (Or.inl (Mapping.dstOf?_link_of_dstOf? hpaired s d))
  · -- a full mapping refuses every pair
    rw [Mapping.link_eq_self (Or.inl (hfull s hfits.src_lt))]
    exact Or.inr (Or.inr ⟨hfull, hdst⟩)

/-- **The rule of the roots holds after a run.** -/
theorem rootRule_solve (hp : p.Sound) (options : MatchOptions) :
    p.RootRule (p.solve options) :=
  bottomUp_induction (P := p.RootRule) options.threshold
    (rootRule_foldl_heightRound hp _ (p.heights_pairwise options.minHeight))
    fun _ hm _ _ hfits hroot => hm.link hfits hroot

/-! ## Roots of a type of their own -/

theorem dstOf?_settle {threshold : Float} {a : Nat} (h : m.dstOf? s = some d) :
    (p.settle threshold m a).dstOf? s = some d := by
  unfold settle
  split
  · exact recover_induction (P := fun m => m.dstOf? s = some d)
      (Mapping.dstOf?_link_of_dstOf? h _ _) fun _ hm s' d' _ _ =>
        Mapping.dstOf?_link_of_dstOf? hm s' d'
  · exact h

/-- Free roots of one type are paired when the phase comes to them. -/
theorem dstOf?_settle_root {threshold : Float} (hs : m.dstOf? p.src.root = none)
    (hd : m.srcOf? p.dst.root = none)
    (htype : p.src.typeName p.src.root = p.dst.typeName p.dst.root) :
    (p.settle threshold m p.src.root).dstOf? p.src.root = some p.dst.root := by
  have hpartner : p.partner? threshold m p.src.root = some p.dst.root := by
    simp [partner?, Mapping.hasSrc, Mapping.hasDst, hs, hd, sameType, htype]
  unfold settle
  rw [hpartner]
  refine recover_induction (P := fun m => m.dstOf? p.src.root = some p.dst.root) ?_ ?_
  · exact Mapping.dstOf?_link_iff.mpr (Or.inr ⟨hs, hd, rfl, rfl⟩)
  · intro m hm s' d' _ _
    exact Mapping.dstOf?_link_of_dstOf? hm s' d'

/-- The phase comes to the source root last. -/
theorem exists_bottomUp_eq_settle (p : MatchProblem) (threshold : Float) (m : Mapping) :
    ∃ m', p.bottomUp threshold m = p.settle threshold m' p.src.root := by
  obtain ⟨n, hn⟩ : ∃ n, p.src.size = n + 1 :=
    ⟨p.src.size - 1, by have := p.src.root_lt_size; omega⟩
  refine ⟨(List.range' 1 n).reverse.foldl (p.settle threshold) m, ?_⟩
  unfold bottomUp Tree.ids
  rw [hn, List.range_eq_range', List.range'_succ, List.reverse_cons, List.foldl_append]
  rfl

/-- **Roots of one type that no other node has are paired with each other.** -/
theorem dstOf?_root_solve (p : MatchProblem) (options : MatchOptions)
    (htype : p.src.typeName p.src.root = p.dst.typeName p.dst.root)
    (hsrc : ∀ s < p.src.size, p.src.typeName s = p.src.typeName p.src.root → s = p.src.root)
    (hdst : ∀ d < p.dst.size, p.dst.typeName d = p.dst.typeName p.dst.root → d = p.dst.root) :
    (p.solve options).dstOf? p.src.root = some p.dst.root := by
  have hfits : ∀ {s d}, (p.solve options).dstOf? s = some d → p.Fits s d :=
    p.fits_of_dstOf?_solve options
  obtain ⟨m, hm⟩ := p.exists_bottomUp_eq_settle options.threshold (p.topDown options.minHeight)
  rw [solve, hm] at hfits ⊢
  cases hs : m.dstOf? p.src.root with
  | some d =>
    -- whatever the phases before have given to the source root is of its type
    have hpair : (p.settle options.threshold m p.src.root).dstOf? p.src.root = some d :=
      dstOf?_settle hs
    have hfit := hfits hpair
    rw [hpair, hdst d hfit.dst_lt (hfit.typeName_eq.symm.trans htype)]
  | none =>
    refine dstOf?_settle_root hs (Option.eq_none_iff_forall_ne_some.mpr fun s hsd => ?_) htype
    -- and so is whatever they have given the destination root to
    rw [← Mapping.dstOf?_eq_some_iff] at hsd
    have hfit := hfits (dstOf?_settle hsd)
    rw [hsrc s hfit.src_lt (hfit.typeName_eq.trans htype.symm), hs] at hsd
    cases hsd

end MatchProblem

/-- **Roots of one type that no other node of the two trees has are paired with each other.** -/
theorem matchTrees_root (options : MatchOptions) (src dst : Tree)
    (htype : src.typeName src.root = dst.typeName dst.root)
    (hsrc : ∀ s < src.size, src.typeName s = src.typeName src.root → s = src.root)
    (hdst : ∀ d < dst.size, dst.typeName d = dst.typeName dst.root → d = dst.root) :
    (matchTrees options src dst).dstOf? src.root = some dst.root :=
  MatchProblem.dstOf?_root_solve (.ofTrees src dst) options htype hsrc hdst

/-- A file with a token, and a file with the same token in a block. The token is paired first and
the two files have nothing else in common. -/
theorem matchTrees_root_of_files :
    let file : Tree := .single { kind := .other, typeName := "translation_unit" }
    let token : NodeData := { kind := .tokenLeaf, typeName := "token", label := some "f" }
    let src := file.add 0 token
    let dst := (file.add 0 { kind := .other, typeName := "block" }).add 1 token
    (isomorphic src 1 dst 2 = true ∧ isomorphic src src.root dst dst.root = false) ∧
      (matchTrees { minHeight := 1, threshold := 0 / 0 } src dst).dstOf? src.root =
        some dst.root := by
  intro file token src dst
  refine ⟨by decide +kernel, matchTrees_root _ _ _ ?_ ?_ ?_⟩
  · decide +kernel
  · decide +kernel
  · decide +kernel

end CallDelta

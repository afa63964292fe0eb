import CallDelta.Proofs.MatchingRoots

/-!
# The rounds of the top-down phase

A round pairs whole subtrees of one height. Such subtrees have no node in common, and what lies
below an unpaired node of that height is unpaired too, since the taller rounds before it pair whole
subtrees. So a round takes in all of its pairs.

* `MatchProblem.Linkable`: subtrees that can be paired as a whole
* `MatchProblem.LinkedDownTo`: what the rounds down to a height leave behind
* `MatchProblem.dstOf?_heightRound_iff`: the pairs after a round
* `MatchProblem.LinkedDownTo.heightRound`, `MatchProblem.LinkedDownTo.foldl_heightRound`: what one
  round and all rounds keep
* `MatchProblem.mem_uniquePairs_iff_equal`: the pairs of a round by comparison alone
* `MatchProblem.exists_rival`: what a round leaves unpaired
* `MatchProblem.rounds_induction`: the phase as one round after the other
-/

namespace CallDelta

/-! ## Heights along a tree -/

section Heights

variable {t : Tree} {height : Nat → Nat} {a i j : Nat}
  (hfall : ∀ {i c}, c ∈ t.children i → height c < height i)

include hfall

theorem height_le_of_within (h : t.Within a i) : height i ≤ height a := by
  induction h with
  | refl => exact Nat.le_refl _
  | step hp _ ih => exact Nat.le_trans (Nat.le_of_lt (hfall (Tree.mem_children.mpr hp))) ih

/-- No node has the height of a node above it. -/
theorem eq_of_within_of_height_eq (h : t.Within a i) (heq : height i = height a) : i = a := by
  cases h with
  | refl => rfl
  | step hp hap =>
    have h₁ := hfall (Tree.mem_children.mpr hp)
    have h₂ := height_le_of_within hfall hap
    omega

/-- Subtrees of one height have no node in common. -/
theorem pairwise_apart_of_height_eq {xs : List Nat} {n : Nat} (hnodup : xs.Nodup)
    (hxs : ∀ x ∈ xs, height x = n) : xs.Pairwise t.Apart := by
  refine hnodup.imp_of_mem fun {a b} ha hb hne j haj hbj => ?_
  have heq : height a = height b := (hxs a ha).trans (hxs b hb).symm
  rcases haj.comparable hbj with hab | hba
  · exact hne (eq_of_within_of_height_eq hfall hab heq.symm).symm
  · exact hne (eq_of_within_of_height_eq hfall hba heq)

/-- Where low nodes are paired along with their parents only, nothing is paired below an unpaired
low node. -/
theorem unpaired_of_within {paired : Nat → Bool} {level : Nat}
    (hup : ∀ i, paired i = true → height i < level → ∃ q, t.parent? i = some q ∧ paired q = true)
    (hlow : height i < level) (hi : paired i = false) (h : t.Within i j) : paired j = false := by
  induction h with
  | refl => exact hi
  | @step j q hq hiq ih =>
    refine Bool.eq_false_iff.mpr fun hj => ?_
    have hle := height_le_of_within hfall (.step hq hiq : t.Within i j)
    obtain ⟨q', hq', hpaired⟩ := hup j hj (Nat.lt_of_le_of_lt hle hlow)
    rw [hq] at hq'
    cases hq'
    rw [ih] at hpaired
    cases hpaired

end Heights

namespace MatchProblem

variable {p : MatchProblem} {m : Mapping} {s d height level : Nat}

/-! ## Linking subtrees that are apart -/

/-- The nodes that meet when the subtrees of pairs are walked in step. -/
def linksBelow (p : MatchProblem) (tops : List (Nat × Nat)) : List (Nat × Nat) :=
  (p.src.visit (tops.map (·.1))).zip (p.dst.visit (tops.map (·.2)))

theorem forall₂_tops {tops : List (Nat × Nat)} (heq : ∀ top ∈ tops, p.equal top.1 top.2 = true) :
    List.Forall₂ (Isomorphic p.src p.dst) (tops.map (·.1)) (tops.map (·.2)) := by
  rw [List.forall₂_map_left_iff, List.forall₂_map_right_iff, List.forall₂_same]
  exact heq

theorem zip_tops (tops : List (Nat × Nat)) : (tops.map (·.1)).zip (tops.map (·.2)) = tops := by
  rw [List.zip_map']
  exact List.map_id tops

theorem mem_linksBelow {tops : List (Nat × Nat)} (heq : ∀ top ∈ tops, p.equal top.1 top.2 = true)
    {top : Nat × Nat} (h : top ∈ tops) : top ∈ p.linksBelow tops := by
  refine mem_zip_visit_of_mem_zip (forall₂_tops heq) ?_
  rw [zip_tops]
  exact h

/-- Equal subtrees that are apart and unpaired on both sides, given by their tops. -/
structure Linkable (p : MatchProblem) (m : Mapping) (tops : List (Nat × Nat)) : Prop where
  equal : ∀ top ∈ tops, p.equal top.1 top.2 = true
  src_apart : (tops.map (·.1)).Pairwise p.src.Apart
  dst_apart : (tops.map (·.2)).Pairwise p.dst.Apart
  src_unpaired : ∀ top ∈ tops, ∀ i, p.src.Within top.1 i → m.dstOf? i = none
  dst_unpaired : ∀ top ∈ tops, ∀ i, p.dst.Within top.2 i → m.srcOf? i = none

namespace Linkable

variable {tops : List (Nat × Nat)}

theorem fst_nodup (h : p.Linkable m tops) : ((p.linksBelow tops).map (·.1)).Nodup := by
  have hlen := (forall₂_visit (forall₂_tops h.equal)).length_eq
  rw [linksBelow, List.map_fst_zip (Nat.le_of_eq hlen)]
  exact Tree.visit_nodup h.src_apart

theorem snd_nodup (h : p.Linkable m tops) : ((p.linksBelow tops).map (·.2)).Nodup := by
  have hlen := (forall₂_visit (forall₂_tops h.equal)).length_eq
  rw [linksBelow, List.map_snd_zip (Nat.le_of_eq hlen.symm)]
  exact Tree.visit_nodup h.dst_apart

theorem unpaired (h : p.Linkable m tops) {pair : Nat × Nat} (hpair : pair ∈ p.linksBelow tops) :
    m.dstOf? pair.1 = none ∧ m.srcOf? pair.2 = none := by
  obtain ⟨hsrc, hdst⟩ := List.of_mem_zip hpair
  constructor
  · obtain ⟨i, hi, hwithin⟩ := Tree.mem_visit_iff.mp hsrc
    obtain ⟨top, htop, rfl⟩ := List.mem_map.mp hi
    exact h.src_unpaired top htop pair.1 hwithin
  · obtain ⟨i, hi, hwithin⟩ := Tree.mem_visit_iff.mp hdst
    obtain ⟨top, htop, rfl⟩ := List.mem_map.mp hi
    exact h.dst_unpaired top htop pair.2 hwithin

end Linkable

/-- **Subtrees that are apart and unpaired are linked completely.** -/
theorem dstOf?_linkSubtreesAll_iff {tops : List (Nat × Nat)} (h : p.Linkable m tops) :
    (p.linkSubtreesAll m tops).dstOf? s = some d ↔
      m.dstOf? s = some d ∨ (s, d) ∈ p.linksBelow tops := by
  have hlinks := linkSubtreesAll_zip (forall₂_tops h.equal) m
  rw [zip_tops, ← linksBelow] at hlinks
  rw [hlinks]
  exact Mapping.dstOf?_linkAll_iff h.fst_nodup h.snd_nodup (fun _ hpair => (h.unpaired hpair).1)
    fun _ hpair => (h.unpaired hpair).2

/-- The children of a pair that get another chance as whole subtrees. -/
theorem linkable_equalChildren (p : MatchProblem) (m : Mapping) (s d : Nat) :
    p.Linkable m (p.equalChildren m s d) where
  equal top htop := (mem_equalChildren htop).2.1
  src_apart := (p.src.children_pairwise_apart s).sublist
    ((map_fst_commonSubsequence_sublist _ _).trans List.filter_sublist)
  dst_apart := (p.dst.children_pairwise_apart d).sublist
    ((map_snd_commonSubsequence_sublist _ _).trans List.filter_sublist)
  src_unpaired top htop i hi := by
    obtain ⟨-, heq, hfree, -⟩ := mem_equalChildren htop
    have := List.all_eq_true.mp hfree i (Tree.mem_preOrder_iff.mpr ⟨(fits_of_equal heq).src_lt, hi⟩)
    exact Mapping.hasSrc_eq_false_iff.mp (Bool.not_eq_true' _ ▸ this)
  dst_unpaired top htop i hi := by
    obtain ⟨-, heq, -, hfree⟩ := mem_equalChildren htop
    have := List.all_eq_true.mp hfree i (Tree.mem_preOrder_iff.mpr ⟨(fits_of_equal heq).dst_lt, hi⟩)
    exact Mapping.hasDst_eq_false_iff.mp (Bool.not_eq_true' _ ▸ this)

/-! ## The pairs of a round -/

theorem uniquePairs_nodup (p : MatchProblem) (m : Mapping) (height : Nat) :
    (p.uniquePairs m height).Nodup := by
  refine List.Nodup.filterMap ?_ (List.nodup_range.filter _)
  intro s s' pair h h'
  obtain ⟨d, -, rfl⟩ := Option.map_eq_some_iff.mp h
  obtain ⟨d', -, he⟩ := Option.map_eq_some_iff.mp h'
  exact (Prod.mk.inj he).1.symm

theorem fst_uniquePairs_nodup (p : MatchProblem) (m : Mapping) (height : Nat) :
    ((p.uniquePairs m height).map (·.1)).Nodup := by
  refine List.Nodup.map_on ?_ (p.uniquePairs_nodup m height)
  rintro ⟨s, d⟩ h ⟨s', d'⟩ h' (rfl : s = s')
  have hd := (mem_uniquePairs_iff.mp h).2
  rw [(mem_uniquePairs_iff.mp h').2] at hd
  cases hd
  rfl

/-- Two source nodes with one partner would be alike, and then neither is unique. -/
theorem snd_uniquePairs_nodup (hp : p.Sound) (m : Mapping) (height : Nat) :
    ((p.uniquePairs m height).map (·.2)).Nodup := by
  refine List.Nodup.map_on ?_ (p.uniquePairs_nodup m height)
  rintro ⟨s, d⟩ h ⟨s', d'⟩ h' (rfl : d = d')
  obtain ⟨hs, hpartner⟩ := mem_uniquePairs_iff.mp h
  obtain ⟨hs', hpartner'⟩ := mem_uniquePairs_iff.mp h'
  obtain ⟨⟨a, ha⟩, -, heq⟩ := uniquePartner?_eq_some_iff.mp hpartner
  obtain ⟨-, -, heq'⟩ := uniquePartner?_eq_some_iff.mp hpartner'
  have hmem : s ∈ [a] := ha ▸ List.mem_filter.mpr ⟨hs, hp.alikeSrc_self heq⟩
  have hmem' : s' ∈ [a] := ha ▸ List.mem_filter.mpr ⟨hs', hp.alikeSrc_of_equal heq heq'⟩
  rw [List.mem_singleton.mp hmem, List.mem_singleton.mp hmem']

/-! ## What the rounds leave behind -/

/-- The pairs after the rounds down to a height: equal subtrees, each paired as a whole, and lower
ones only as parts of larger ones. -/
structure LinkedDownTo (p : MatchProblem) (level : Nat) (m : Mapping) : Prop where
  equal : ∀ {s d}, m.dstOf? s = some d → p.equal s d = true
  children : ∀ {s d}, m.dstOf? s = some d →
    List.Forall₂ (fun a b => m.dstOf? a = some b) (p.src.children s) (p.dst.children d)
  parents : ∀ {s d}, m.dstOf? s = some d → p.srcHeight s < level →
    ∃ ps pd, p.src.parent? s = some ps ∧ p.dst.parent? d = some pd ∧ m.dstOf? ps = some pd

namespace LinkedDownTo

theorem empty (p : MatchProblem) (level : Nat) : p.LinkedDownTo level .empty := by
  constructor <;> simp

theorem mono {low : Nat} (h : p.LinkedDownTo level m) (hle : low ≤ level) :
    p.LinkedDownTo low m where
  equal := h.equal
  children := h.children
  parents hsd hlow := h.parents hsd (Nat.lt_of_lt_of_le hlow hle)

/-- The subtree of a paired node is paired in step with that of its partner. -/
theorem preOrder (h : p.LinkedDownTo level m) (hsd : m.dstOf? s = some d) :
    List.Forall₂ (fun a b => m.dstOf? a = some b) (p.src.preOrder s) (p.dst.preOrder d) := by
  have hfits := fits_of_equal (h.equal hsd)
  rw [Tree.preOrder_of_lt hfits.src_lt, Tree.preOrder_of_lt hfits.dst_lt]
  exact forall₂_visit_of_children (fun _ _ => h.children) (.cons hsd .nil)

theorem unpaired_below_src (hp : p.Sound) (h : p.LinkedDownTo level m)
    (hlow : p.srcHeight s < level) (hs : m.hasSrc s = false) {i : Nat} (hsi : p.src.Within s i) :
    m.hasSrc i = false := by
  refine unpaired_of_within hp.srcHeight_lt (fun a ha hlow => ?_) hlow hs hsi
  obtain ⟨b, hab⟩ := Mapping.hasSrc_iff.mp ha
  obtain ⟨ps, pd, hps, -, hpair⟩ := h.parents hab hlow
  exact ⟨ps, hps, Mapping.hasSrc_iff.mpr ⟨pd, hpair⟩⟩

theorem unpaired_below_dst (hp : p.Sound) (h : p.LinkedDownTo level m)
    (hlow : p.dstHeight d < level) (hd : m.hasDst d = false) {i : Nat} (hdi : p.dst.Within d i) :
    m.hasDst i = false := by
  refine unpaired_of_within hp.dstHeight_lt (fun b hb hlow => ?_) hlow hd hdi
  obtain ⟨a, hab⟩ := Mapping.hasDst_iff.mp hb
  rw [← Mapping.dstOf?_eq_some_iff] at hab
  rw [← hp.height_eq (h.equal hab)] at hlow
  obtain ⟨ps, pd, -, hpd, hpair⟩ := h.parents hab hlow
  exact ⟨pd, hpd, Mapping.hasDst_iff.mpr ⟨ps, Mapping.dstOf?_eq_some_iff.mp hpair⟩⟩

end LinkedDownTo

/-! ## One round -/

theorem equal_of_mem_uniquePairs {top : Nat × Nat} (h : top ∈ p.uniquePairs m height) :
    p.equal top.1 top.2 = true :=
  (mem_uniquePairs h).2.2

/-- The subtrees of a round are of one height and so apart, and taller rounds leave them
unpaired. -/
theorem linkable_uniquePairs (hp : p.Sound) (h : p.LinkedDownTo level m) (hlt : height < level) :
    p.Linkable m (p.uniquePairs m height) where
  equal _ := equal_of_mem_uniquePairs
  src_apart := by
    refine pairwise_apart_of_height_eq hp.srcHeight_lt (n := height)
      (p.fst_uniquePairs_nodup _ _) ?_
    intro a ha
    obtain ⟨top, htop, rfl⟩ := List.mem_map.mp ha
    exact (mem_srcCandidates_iff.mp (mem_uniquePairs htop).1).2.2
  dst_apart := by
    refine pairwise_apart_of_height_eq hp.dstHeight_lt (n := height)
      (snd_uniquePairs_nodup hp _ _) ?_
    intro b hb
    obtain ⟨top, htop, rfl⟩ := List.mem_map.mp hb
    exact (mem_dstCandidates_iff.mp (mem_uniquePairs htop).2.1).2.2
  src_unpaired top htop i hi := by
    obtain ⟨-, hfree, hheight⟩ := mem_srcCandidates_iff.mp (mem_uniquePairs htop).1
    exact Mapping.hasSrc_eq_false_iff.mp (h.unpaired_below_src hp (hheight ▸ hlt) hfree hi)
  dst_unpaired top htop i hi := by
    obtain ⟨-, hfree, hheight⟩ := mem_dstCandidates_iff.mp (mem_uniquePairs htop).2.1
    exact Mapping.hasDst_eq_false_iff.mp (h.unpaired_below_dst hp (hheight ▸ hlt) hfree hi)

/-- **A round takes in all of its pairs, with all that is below them.** -/
theorem dstOf?_heightRound_iff (hp : p.Sound) (h : p.LinkedDownTo level m) (hlt : height < level) :
    (p.heightRound m height).dstOf? s = some d ↔
      m.dstOf? s = some d ∨ (s, d) ∈ p.linksBelow (p.uniquePairs m height) :=
  dstOf?_linkSubtreesAll_iff (linkable_uniquePairs hp h hlt)

/-- **What the rounds leave behind, the next round keeps.** -/
theorem LinkedDownTo.heightRound (hp : p.Sound) (h : p.LinkedDownTo level m)
    (hlt : height < level) : p.LinkedDownTo height (p.heightRound m height) := by
  have htops := forall₂_tops (p := p) fun top (h : top ∈ p.uniquePairs m height) =>
    equal_of_mem_uniquePairs h
  have hround : ∀ {s d}, (p.heightRound m height).dstOf? s = some d ↔
      m.dstOf? s = some d ∨ (s, d) ∈ p.linksBelow (p.uniquePairs m height) :=
    dstOf?_heightRound_iff hp h hlt
  refine ⟨fun hsd => ?_, fun hsd => ?_, fun hsd hlow => ?_⟩
  · rcases hround.mp hsd with hsd | hsd
    · exact h.equal hsd
    · exact (List.forall₂_iff_zip.mp (forall₂_visit htops)).2 hsd
  · rcases hround.mp hsd with hsd | hsd
    · exact (h.children hsd).imp fun _ _ hab => hround.mpr (Or.inl hab)
    · exact (children_of_mem_zip_visit htops hsd).imp fun _ _ hab => hround.mpr (Or.inr hab)
  · rcases hround.mp hsd with hsd | hsd
    · obtain ⟨ps, pd, hps, hpd, hpair⟩ := h.parents hsd (Nat.lt_trans hlow hlt)
      exact ⟨ps, pd, hps, hpd, hround.mpr (Or.inl hpair)⟩
    · rcases parents_of_mem_zip_visit htops hsd with htop | ⟨ps, pd, hps, hpd, hpair⟩
      · -- a top of this round is as tall as the round, and not lower
        obtain ⟨top, hmem, rfl⟩ := List.mem_map.mp (List.of_mem_zip htop).1
        obtain ⟨-, -, hheight⟩ := mem_srcCandidates_iff.mp (mem_uniquePairs hmem).1
        omega
      · exact ⟨ps, pd, hps, hpd, hround.mpr (Or.inr hpair)⟩

/-! ## All rounds -/

/-- **What the rounds leave behind, rounds of falling heights keep.** -/
theorem LinkedDownTo.foldl_heightRound (hp : p.Sound) {low : Nat} {heights : List Nat}
    (h : p.LinkedDownTo level m) (hfalling : heights.Pairwise (· > ·))
    (hrange : ∀ k ∈ heights, low ≤ k ∧ k < level) (hle : low ≤ level) :
    p.LinkedDownTo low (heights.foldl p.heightRound m) := by
  induction heights generalizing level m with
  | nil => exact h.mono hle
  | cons height heights ih =>
    obtain ⟨hfirst, hrest⟩ := List.pairwise_cons.mp hfalling
    obtain ⟨hlow, hlt⟩ := hrange height List.mem_cons_self
    refine ih (h.heightRound hp hlt) hrest (fun k hk => ⟨?_, hfirst k hk⟩) hlow
    exact (hrange k (List.mem_cons_of_mem _ hk)).1

theorem mem_heights_iff {minHeight : Nat} :
    height ∈ p.heights minHeight ↔
      max minHeight 1 ≤ height ∧
        height ≤ max (p.srcHeight p.src.root) (p.dstHeight p.dst.root) := by
  simp only [heights, List.mem_reverse, List.mem_range'_1]
  omega

/-- The first rounds of the top-down phase leave whole subtrees linked. -/
theorem linkedDownTo_of_heights_eq (hp : p.Sound) {minHeight low : Nat} {before after : List Nat}
    (h : p.heights minHeight = before ++ after) (hlow : ∀ k ∈ before, low ≤ k) :
    p.LinkedDownTo low (before.foldl p.heightRound .empty) := by
  have hfalling := p.heights_pairwise minHeight
  rw [h] at hfalling
  have hmost : ∀ k ∈ before, k ≤ max (p.srcHeight p.src.root) (p.dstHeight p.dst.root) := by
    intro k hk
    exact (mem_heights_iff.mp (h ▸ List.mem_append_left after hk)).2
  generalize max (p.srcHeight p.src.root) (p.dstHeight p.dst.root) = most at hmost
  -- nothing is linked at the start, so any level above all rounds will do
  refine LinkedDownTo.foldl_heightRound hp (.empty p (most + 1 + low))
    (List.pairwise_append.mp hfalling).1 (fun k hk => ⟨hlow k hk, ?_⟩) (Nat.le_add_left low _)
  have := hmost k hk
  omega

/-- The phase is one round after the other, from the tallest to the lowest. -/
theorem topDown_eq_heightRound {low : Nat} (hlow : 1 ≤ low)
    (hle : low ≤ max (p.srcHeight p.src.root) (p.dstHeight p.dst.root)) :
    p.topDown low = p.heightRound (p.topDown (low + 1)) low := by
  have hheights : p.heights low = p.heights (low + 1) ++ [low] := by
    simp only [heights]
    generalize max (p.srcHeight p.src.root) (p.dstHeight p.dst.root) = most at hle
    have hcount : most + 1 - low = most + 1 - (low + 1) + 1 := by omega
    rw [Nat.max_eq_left hlow, Nat.max_eq_left (Nat.le_add_left 1 low), hcount, List.range'_succ,
      List.reverse_cons]
  rw [topDown, topDown, hheights, List.foldl_append, List.foldl_cons, List.foldl_nil]

theorem rounds_induction {P : Mapping → Prop} {low : Nat} (hlow : 1 ≤ low) (hempty : P .empty)
    (step : ∀ k, low ≤ k → P (p.topDown (k + 1)) → P (p.heightRound (p.topDown (k + 1)) k)) :
    P (p.topDown low) := by
  generalize hmost : max (p.srcHeight p.src.root) (p.dstHeight p.dst.root) = most
  generalize hn : most + 1 - low = n
  induction n generalizing low with
  | zero =>
    have hnone : p.heights low = [] := by
      refine List.eq_nil_iff_forall_not_mem.mpr fun k hk => ?_
      have := mem_heights_iff.mp hk
      omega
    rw [topDown, hnone]
    exact hempty
  | succ n ih =>
    rw [topDown_eq_heightRound hlow (by omega)]
    refine step low (Nat.le_refl low) (ih (Nat.le_succ_of_le hlow) (fun k hk => ?_) (by omega))
    exact step k (Nat.le_of_succ_le hk)

theorem linkedDownTo_topDown (hp : p.Sound) {low : Nat} (hlow : 1 ≤ low) :
    p.LinkedDownTo low (p.topDown low) := by
  refine linkedDownTo_of_heights_eq hp (List.append_nil _).symm fun k hk => ?_
  exact Nat.max_eq_left hlow ▸ (mem_heights_iff.mp hk).1

/-! ## What a round leaves unpaired -/

/-- The index tells subtrees apart: those that may be equal are equal. -/
structure Discerns (p : MatchProblem) : Prop where
  equal_of_alike :
    ∀ {s d}, s < p.src.size → d < p.dst.size → p.alike s d = true → p.equal s d = true
  equal_of_alikeSrc : ∀ {s a d}, a < p.src.size → p.equal s d = true → p.alikeSrc s a = true →
    p.equal a d = true

/-- Of two candidates that are equal to one node, none is unique. -/
theorem fst_eq_of_mem_uniquePairs (hp : p.Sound) {a b : Nat}
    (hmem : (a, b) ∈ p.uniquePairs m height)
    (hs : s ∈ p.srcCandidates m height) (ha : p.equal a d = true) (heq : p.equal s d = true) :
    a = s := by
  obtain ⟨hcandidate, hpartner⟩ := mem_uniquePairs_iff.mp hmem
  obtain ⟨⟨x, hx⟩, -⟩ := uniquePartner?_eq_some_iff.mp hpartner
  have hax : a ∈ [x] := hx ▸ List.mem_filter.mpr ⟨hcandidate, hp.alikeSrc_self ha⟩
  have hsx : s ∈ [x] := hx ▸ List.mem_filter.mpr ⟨hs, hp.alikeSrc_of_equal ha heq⟩
  rw [List.mem_singleton.mp hax, List.mem_singleton.mp hsx]

theorem snd_eq_of_mem_uniquePairs (hp : p.Sound) (hmem : (s, d) ∈ p.uniquePairs m height) {b : Nat}
    (hb : b ∈ p.dstCandidates m height) (heq : p.equal s b = true) : b = d := by
  obtain ⟨-, hpartner⟩ := mem_uniquePairs_iff.mp hmem
  obtain ⟨-, hd, -⟩ := uniquePartner?_eq_some_iff.mp hpartner
  have hbd : b ∈ [d] := hd ▸ List.mem_filter.mpr ⟨hb, hp.alike_of_equal heq⟩
  exact List.mem_singleton.mp hbd

/-- A sound index that tells subtrees of one height apart. -/
structure ExactIndex (p : MatchProblem) : Prop extends Sound p where
  equal_of_alike : ∀ {s d}, s < p.src.size → d < p.dst.size → p.srcHeight s = p.dstHeight d →
    p.alike s d = true → p.equal s d = true
  equal_of_alikeSrc : ∀ {s a d}, a < p.src.size → p.srcHeight a = p.srcHeight s →
    p.equal s d = true → p.alikeSrc s a = true → p.equal a d = true

/-- Two candidates that are equal to each other and to no other candidate. -/
structure OnlyEqual (p : MatchProblem) (m : Mapping) (height s d : Nat) : Prop where
  src_mem : s ∈ p.srcCandidates m height
  dst_mem : d ∈ p.dstCandidates m height
  equal : p.equal s d = true
  src_eq : ∀ a ∈ p.srcCandidates m height, p.equal a d = true → a = s
  dst_eq : ∀ b ∈ p.dstCandidates m height, p.equal s b = true → b = d

/-- **Under an exact index a round pairs what is equal to each other and to nothing else.** -/
theorem mem_uniquePairs_iff_equal (hp : p.ExactIndex) :
    (s, d) ∈ p.uniquePairs m height ↔ p.OnlyEqual m height s d := by
  constructor
  · intro h
    obtain ⟨hs, hd, heq⟩ := mem_uniquePairs h
    refine ⟨hs, hd, heq, fun a ha haEq => ?_, fun b hb hbEq => ?_⟩
    · exact (fst_eq_of_mem_uniquePairs hp.toSound h ha heq haEq).symm
    · exact snd_eq_of_mem_uniquePairs hp.toSound h hb hbEq
  · rintro ⟨hs, hd, heq, hsrc, hdst⟩
    obtain ⟨hsLt, -, hsHeight⟩ := mem_srcCandidates_iff.mp hs
    refine mem_uniquePairs_iff.mpr ⟨hs, uniquePartner?_eq_some_iff.mpr ⟨⟨s, ?_⟩, ?_, heq⟩⟩
    · refine filter_eq_singleton (List.nodup_range.filter _) hs fun a ha => ⟨fun halike => ?_, ?_⟩
      · obtain ⟨haLt, -, haHeight⟩ := mem_srcCandidates_iff.mp ha
        have hlevel := haHeight.trans hsHeight.symm
        exact hsrc a ha (hp.equal_of_alikeSrc haLt hlevel heq halike)
      · rintro rfl
        exact hp.alikeSrc_self heq
    · refine filter_eq_singleton (List.nodup_range.filter _) hd fun b hb => ⟨fun halike => ?_, ?_⟩
      · obtain ⟨hbLt, -, hbHeight⟩ := mem_dstCandidates_iff.mp hb
        have hlevel := hsHeight.trans hbHeight.symm
        exact hdst b hb (hp.equal_of_alike hsLt hbLt hlevel halike)
      · rintro rfl
        exact hp.alike_of_equal heq

theorem Discerns.exactIndex (hdiscerns : p.Discerns) (hp : p.Sound) : p.ExactIndex where
  toSound := hp
  equal_of_alike hs hd _ := hdiscerns.equal_of_alike hs hd
  equal_of_alikeSrc ha _ := hdiscerns.equal_of_alikeSrc ha

/-- What a round pairs at its own height is a pair of tops. -/
theorem mem_uniquePairs_of_dstOf?_heightRound (hp : p.Sound) (h : p.LinkedDownTo level m)
    (hlt : height < level) (hheight : p.srcHeight s = height) (hs : m.dstOf? s ≠ some d)
    (hsd : (p.heightRound m height).dstOf? s = some d) : (s, d) ∈ p.uniquePairs m height := by
  have hround : ∀ {s d}, (p.heightRound m height).dstOf? s = some d ↔
      m.dstOf? s = some d ∨ (s, d) ∈ p.linksBelow (p.uniquePairs m height) :=
    dstOf?_heightRound_iff hp h hlt
  have hmem := (hround.mp hsd).resolve_left hs
  obtain ⟨a, ha, hwithin⟩ := Tree.mem_visit_iff.mp (List.of_mem_zip hmem).1
  obtain ⟨top, htop, rfl⟩ := List.mem_map.mp ha
  obtain ⟨-, -, htopHeight⟩ := mem_srcCandidates_iff.mp (mem_uniquePairs htop).1
  have hfst : s = top.1 :=
    eq_of_within_of_height_eq hp.srcHeight_lt hwithin (hheight.trans htopHeight.symm)
  have hsnd := hround.mpr (Or.inr (mem_linksBelow (fun _ => equal_of_mem_uniquePairs) htop))
  rw [← hfst, hsd, Option.some.injEq] at hsnd
  rw [hfst, hsnd]
  exact htop

theorem mem_srcCandidates_heightRound_or (hp : p.Sound) (h : p.LinkedDownTo level m)
    (hlt : height < level) (hs : s ∈ p.srcCandidates m height) :
    s ∈ p.srcCandidates (p.heightRound m height) height ∨ ∃ d, (s, d) ∈ p.uniquePairs m height := by
  obtain ⟨hsLt, hfree, hheight⟩ := mem_srcCandidates_iff.mp hs
  cases hpaired : (p.heightRound m height).hasSrc s with
  | false => exact Or.inl (mem_srcCandidates_iff.mpr ⟨hsLt, hpaired, hheight⟩)
  | true =>
    obtain ⟨d, hsd⟩ := Mapping.hasSrc_iff.mp hpaired
    refine Or.inr ⟨d, mem_uniquePairs_of_dstOf?_heightRound hp h hlt hheight ?_ hsd⟩
    rw [Mapping.hasSrc_eq_false_iff.mp hfree]
    exact nofun

theorem mem_dstCandidates_heightRound_or (hp : p.Sound) (h : p.LinkedDownTo level m)
    (hlt : height < level) (hd : d ∈ p.dstCandidates m height) :
    d ∈ p.dstCandidates (p.heightRound m height) height ∨ ∃ s, (s, d) ∈ p.uniquePairs m height := by
  obtain ⟨hdLt, hfree, hheight⟩ := mem_dstCandidates_iff.mp hd
  cases hpaired : (p.heightRound m height).hasDst d with
  | false => exact Or.inl (mem_dstCandidates_iff.mpr ⟨hdLt, hpaired, hheight⟩)
  | true =>
    obtain ⟨s, hs⟩ := Mapping.hasDst_iff.mp hpaired
    have hsd := Mapping.dstOf?_eq_some_iff.mpr hs
    have hsHeight := hp.height_eq ((h.heightRound hp hlt).equal hsd)
    refine Or.inr
      ⟨s, mem_uniquePairs_of_dstOf?_heightRound hp h hlt (hsHeight.trans hheight) ?_ hsd⟩
    rw [ne_eq, Mapping.dstOf?_eq_some_iff, Mapping.hasDst_eq_false_iff.mp hfree]
    exact nofun

/-- **A round leaves equal subtrees of its height unpaired only if another unpaired one is equal to
one of the two.** -/
theorem exists_rival (hp : p.Sound) (hdiscerns : p.Discerns) (h : p.LinkedDownTo level m)
    (hlt : height < level) (hs : s ∈ p.srcCandidates (p.heightRound m height) height)
    (hd : d ∈ p.dstCandidates (p.heightRound m height) height) (heq : p.equal s d = true) :
    (∃ a ∈ p.srcCandidates (p.heightRound m height) height, a ≠ s ∧ p.equal a d = true) ∨
      ∃ b ∈ p.dstCandidates (p.heightRound m height) height, b ≠ d ∧ p.equal s b = true := by
  obtain ⟨hsLt, hsFree, hsHeight⟩ := mem_srcCandidates_iff.mp hs
  obtain ⟨hdLt, hdFree, hdHeight⟩ := mem_dstCandidates_iff.mp hd
  have hnew : ∀ b, (p.heightRound m height).dstOf? s ≠ some b := fun b => by
    rw [Mapping.hasSrc_eq_false_iff.mp hsFree]
    exact nofun
  have hnotPair : ∀ b, (s, b) ∉ p.uniquePairs m height := fun b hb =>
    hnew b ((dstOf?_heightRound_iff hp h hlt).mpr
      (Or.inr (mem_linksBelow (fun _ => equal_of_mem_uniquePairs) hb)))
  have hsOld : s ∈ p.srcCandidates m height := by
    refine mem_srcCandidates_iff.mpr ⟨hsLt, ?_, hsHeight⟩
    refine Mapping.hasSrc_eq_false_iff.mpr (Option.eq_none_iff_forall_ne_some.mpr fun b hb => ?_)
    exact hnew b ((dstOf?_heightRound_iff hp h hlt).mpr (Or.inl hb))
  have hdOld : d ∈ p.dstCandidates m height := by
    refine mem_dstCandidates_iff.mpr ⟨hdLt, ?_, hdHeight⟩
    refine Mapping.hasDst_eq_false_iff.mpr (Option.eq_none_iff_forall_ne_some.mpr fun a ha => ?_)
    have hd' := (dstOf?_heightRound_iff hp h hlt).mpr (Or.inl (Mapping.dstOf?_eq_some_iff.mpr ha))
    rw [Mapping.dstOf?_eq_some_iff, Mapping.hasDst_eq_false_iff.mp hdFree] at hd'
    cases hd'
  by_contra hnone
  obtain ⟨hsrc, hdst⟩ := not_or.mp hnone
  -- without others the two are a pair of the round
  refine hnotPair d ((mem_uniquePairs_iff_equal (hdiscerns.exactIndex hp)).mpr
    ⟨hsOld, hdOld, heq, fun a ha haEq => ?_, fun b hb hbEq => ?_⟩)
  · rcases mem_srcCandidates_heightRound_or hp h hlt ha with hleft | ⟨b, hab⟩
    · exact by_contra fun hne => hsrc ⟨a, hleft, hne, haEq⟩
    · exact fst_eq_of_mem_uniquePairs hp hab hsOld haEq heq
  · rcases mem_dstCandidates_heightRound_or hp h hlt hb with hleft | ⟨a, hab⟩
    · exact by_contra fun hne => hdst ⟨b, hleft, hne, hbEq⟩
    · -- a partner of `b` in this round is equal to `b` as `s` is, so it is `s`
      have has := fst_eq_of_mem_uniquePairs hp hab hsOld (equal_of_mem_uniquePairs hab) hbEq
      exact absurd (has ▸ hab) (hnotPair b)

end MatchProblem

end CallDelta

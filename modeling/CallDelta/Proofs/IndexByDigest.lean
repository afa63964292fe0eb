import CallDelta.Proofs.HeightRounds
import CallDelta.Proofs.MatchingCongruence
import CallDelta.Proofs.ReportedCalls
import Mathlib.Data.List.Zip

/-!
# The index and the comparison

The index of a problem says which subtrees may be equal. Under an exact index the pairs of a round
can be told without it: two equal candidates that are equal to no other candidate. All exact indexes
therefore lead to one mapping, and trading source for destination turns the mapping of the top-down
phase round.

* `MatchProblem.SameAnswers.of_exactIndex`: two such indexes cannot be told apart
* `MatchProblem.Mirrors.topDown`: the top-down phase of the mirrored problem
* `digest_is_index`: both together
-/

namespace CallDelta

/-! ## Inverse mappings -/

/-- The pairs of one mapping are those of the other, turned round. -/
def Mapping.InverseOf (m m' : Mapping) : Prop := ∀ s d, m.dstOf? s = some d ↔ m'.dstOf? d = some s

namespace Mapping.InverseOf

variable {m m' : Mapping}

theorem symm (h : m.InverseOf m') : m'.InverseOf m := fun s d => (h d s).symm

theorem hasSrc (h : m.InverseOf m') (i : Nat) : m.hasSrc i = m'.hasDst i := by
  rw [Bool.eq_iff_iff, Mapping.hasSrc_iff, Mapping.hasDst_iff]
  exact exists_congr fun d => (h i d).trans Mapping.dstOf?_eq_some_iff

end Mapping.InverseOf

namespace MatchProblem

variable {p q : MatchProblem} {m m' : Mapping} {s d height level : Nat}

/-! ## Two indexes -/

theorem ExactIndex.uniquePartner?_iff (hp : p.ExactIndex) (hs : s ∈ p.srcCandidates m height) :
    p.uniquePartner? (p.srcCandidates m height) (p.dstCandidates m height) s = some d ↔
      p.OnlyEqual m height s d := by
  rw [← mem_uniquePairs_iff_equal hp, mem_uniquePairs_iff, and_iff_right hs]

/-- The problem with another index. -/
def withIndex (p : MatchProblem) (alikeSrc alike : Nat → Nat → Bool) : MatchProblem :=
  { p with alikeSrc, alike }

/-- **Exact indexes cannot be told apart.** -/
theorem SameAnswers.of_exactIndex {alikeSrc alike : Nat → Nat → Bool} (hp : p.ExactIndex)
    (hp' : (p.withIndex alikeSrc alike).ExactIndex) :
    p.SameAnswers (p.withIndex alikeSrc alike) where
  src := .refl _
  dst := .refl _
  srcHeight := rfl
  dstHeight := rfl
  srcSize := rfl
  dstSize := rfl
  uniquePairs m height := by
    -- both rounds go through the same candidates, so the partner of each is all there is to compare
    refine List.filterMap_congr fun s hs => congrArg _ (Option.ext fun d => ?_)
    refine (hp.uniquePartner?_iff hs).trans (Iff.trans ?_ (hp'.uniquePartner?_iff hs).symm)
    exact ⟨fun h => ⟨h.1, h.2, h.3, h.4, h.5⟩, fun h => ⟨h.1, h.2, h.3, h.4, h.5⟩⟩
  alike s d := by
    have hequal : (p.withIndex alikeSrc alike).equal s d = p.equal s d := rfl
    rw [hequal]
    cases heq : p.equal s d with
    | false => rw [Bool.and_false, Bool.and_false]
    | true => rw [hp.alike_of_equal heq, hp'.alike_of_equal heq]

/-! ## The mirrored problem -/

/-- Two problems with source and destination traded. -/
structure Mirrors (p q : MatchProblem) : Prop where
  src : p.src = q.dst
  dst : p.dst = q.src
  srcHeight : p.srcHeight = q.dstHeight
  dstHeight : p.dstHeight = q.srcHeight

theorem mem_linksBelow_iff {tops : List (Nat × Nat)}
    (heq : ∀ top ∈ tops, p.equal top.1 top.2 = true) :
    (s, d) ∈ p.linksBelow tops ↔
      ∃ top ∈ tops, (s, d) ∈ (p.src.preOrder top.1).zip (p.dst.preOrder top.2) := by
  induction tops with
  | nil => simp [linksBelow]
  | cons top tops ih =>
    have htop : p.equal top.1 top.2 = true := heq top List.mem_cons_self
    have hfits := fits_of_equal htop
    have hwalk : p.linksBelow (top :: tops) =
        (p.src.preOrder top.1).zip (p.dst.preOrder top.2) ++ p.linksBelow tops := by
      unfold linksBelow
      rw [List.map_cons, List.map_cons, Tree.visit_cons_of_lt hfits.src_lt,
        Tree.visit_cons_of_lt hfits.dst_lt, List.zip_append (forall₂_preOrder htop).length_eq]
    rw [hwalk, List.mem_append, ih fun t ht => heq t (List.mem_cons_of_mem _ ht)]
    simp only [List.mem_cons, exists_eq_or_imp]

theorem mem_zip_comm {xs ys : List Nat} : (s, d) ∈ xs.zip ys ↔ (d, s) ∈ ys.zip xs := by
  rw [← List.zip_swap ys xs, List.mem_map]
  constructor
  · rintro ⟨⟨b, a⟩, hmem, he⟩
    cases he
    exact hmem
  · exact fun h => ⟨(d, s), h, rfl⟩

namespace Mirrors

theorem symm (h : p.Mirrors q) : q.Mirrors p where
  src := h.dst.symm
  dst := h.src.symm
  srcHeight := h.dstHeight.symm
  dstHeight := h.srcHeight.symm

theorem equal (h : p.Mirrors q) (heq : p.equal s d = true) : q.equal d s = true := by
  unfold MatchProblem.equal at heq ⊢
  rw [h.src, h.dst] at heq
  exact Isomorphic.symm heq

theorem heights (h : p.Mirrors q) (minHeight : Nat) :
    p.heights minHeight = q.heights minHeight := by
  unfold MatchProblem.heights
  rw [h.srcHeight, h.dstHeight, Nat.max_comm (q.dstHeight _)]
  rfl

/-- A pair of the round is a pair of the mirrored round. -/
theorem onlyEqual (h : p.Mirrors q) (hm : m.InverseOf m') (hpair : p.OnlyEqual m height s d) :
    q.OnlyEqual m' height d s := by
  have hsrc : ∀ {a}, a ∈ p.srcCandidates m height ↔ a ∈ q.dstCandidates m' height := fun {a} => by
    rw [mem_srcCandidates_iff, mem_dstCandidates_iff, h.src, h.srcHeight, hm.hasSrc]
  have hdst : ∀ {b}, b ∈ p.dstCandidates m height ↔ b ∈ q.srcCandidates m' height := fun {b} => by
    rw [mem_srcCandidates_iff, mem_dstCandidates_iff, h.dst, h.dstHeight, hm.symm.hasSrc]
  refine ⟨hdst.mp hpair.dst_mem, hsrc.mp hpair.src_mem, h.equal hpair.equal, ?_, ?_⟩
  · intro b hb hbEq
    exact hpair.dst_eq b (hdst.mpr hb) (h.symm.equal hbEq)
  · intro a ha haEq
    exact hpair.src_eq a (hsrc.mpr ha) (h.symm.equal haEq)

theorem mem_linksBelow (h : p.Mirrors q) (hp : p.ExactIndex) (hq : q.ExactIndex)
    (hm : m.InverseOf m')
    (hmem : (s, d) ∈ p.linksBelow (p.uniquePairs m height)) :
    (d, s) ∈ q.linksBelow (q.uniquePairs m' height) := by
  obtain ⟨⟨a, b⟩, htop, hzip⟩ := (mem_linksBelow_iff fun _ => equal_of_mem_uniquePairs).mp hmem
  have hpair := h.onlyEqual hm ((mem_uniquePairs_iff_equal hp).mp htop)
  refine (mem_linksBelow_iff fun _ => equal_of_mem_uniquePairs).mpr
    ⟨(b, a), (mem_uniquePairs_iff_equal hq).mpr hpair, ?_⟩
  rw [h.src, h.dst] at hzip
  exact mem_zip_comm.mp hzip

/-- **A round keeps two mappings inverse to each other.** -/
theorem heightRound (h : p.Mirrors q) (hp : p.ExactIndex) (hq : q.ExactIndex)
    (hlinked : p.LinkedDownTo level m) (hlinked' : q.LinkedDownTo level m') (hlt : height < level)
    (hm : m.InverseOf m') : (p.heightRound m height).InverseOf (q.heightRound m' height) := by
  intro s d
  rw [dstOf?_heightRound_iff hp.toSound hlinked hlt, dstOf?_heightRound_iff hq.toSound hlinked' hlt]
  refine or_congr (hm s d) ⟨?_, ?_⟩
  · exact h.mem_linksBelow hp hq hm
  · exact h.symm.mem_linksBelow hq hp hm.symm

/-- Rounds of falling heights keep two mappings inverse to each other. -/
theorem foldl_heightRound (h : p.Mirrors q) (hp : p.ExactIndex) (hq : q.ExactIndex)
    {heights : List Nat} (hlinked : p.LinkedDownTo level m) (hlinked' : q.LinkedDownTo level m')
    (hfalling : heights.Pairwise (· > ·))
    (hrange : ∀ k ∈ heights, k < level) (hm : m.InverseOf m') :
    (heights.foldl p.heightRound m).InverseOf (heights.foldl q.heightRound m') := by
  induction heights generalizing level m m' with
  | nil => exact hm
  | cons height heights ih =>
    obtain ⟨hfirst, hrest⟩ := List.pairwise_cons.mp hfalling
    have hlt := hrange height List.mem_cons_self
    exact ih (hlinked.heightRound hp.toSound hlt) (hlinked'.heightRound hq.toSound hlt) hrest hfirst
      (h.heightRound hp hq hlinked hlinked' hlt hm)

/-- **The top-down phase of the mirrored problem gives the inverse mapping.** -/
theorem topDown (h : p.Mirrors q) (hp : p.ExactIndex) (hq : q.ExactIndex) (minHeight : Nat) :
    (p.topDown minHeight).InverseOf (q.topDown minHeight) := by
  unfold MatchProblem.topDown
  rw [← h.heights]
  refine h.foldl_heightRound hp hq (.empty p _) (.empty q _) (p.heights_pairwise minHeight)
    (fun k hk => Nat.lt_succ_of_le (mem_heights_iff.mp hk).2) fun s d => ?_
  rw [Mapping.dstOf?_empty, Mapping.dstOf?_empty]
  constructor <;> intro he <;> cases he

end Mirrors

/-! ## Digests and comparison as indexes -/

theorem exactIndex_byIsomorphism (src dst : Tree) : (byIsomorphism src dst).ExactIndex where
  srcHeight_lt := Tree.height_lt_of_mem_children
  dstHeight_lt := Tree.height_lt_of_mem_children
  height_eq h := congrArg Measure.height (measures_eq_of_isomorphic h)
  alikeSrc_of_equal h h' := Isomorphic.trans h (Isomorphic.symm h')
  alike_of_equal h := h
  equal_of_alike _ _ _ halike := halike
  equal_of_alikeSrc _ _ heq halike := Isomorphic.trans (Isomorphic.symm halike) heq

theorem mirrors_byIsomorphism (src dst : Tree) :
    (byIsomorphism src dst).Mirrors (byIsomorphism dst src) :=
  ⟨rfl, rfl, rfl, rfl⟩

end MatchProblem

/-- Isomorphic nodes of two trees have one hash, and others of one height do not. -/
def HashesDiscern (src dst : Tree) (srcHash dstHash : Nat → UInt64) : Prop :=
  ∀ s < src.size, ∀ d < dst.size,
    (isomorphic src s dst d = true → srcHash s = dstHash d) ∧
      ((src.measures.of s).height = (dst.measures.of d).height → srcHash s = dstHash d →
        isomorphic src s dst d = true)

instance (src dst : Tree) (srcHash dstHash : Nat → UInt64) :
    Decidable (HashesDiscern src dst srcHash dstHash) :=
  inferInstanceAs (Decidable (∀ s < src.size, ∀ d < dst.size,
    (isomorphic src s dst d = true → srcHash s = dstHash d) ∧
      ((src.measures.of s).height = (dst.measures.of d).height → srcHash s = dstHash d →
        isomorphic src s dst d = true)))

namespace HashesDiscern

variable {src dst : Tree} {srcHash dstHash : Nat → UInt64}

theorem hash_eq (h : HashesDiscern src dst srcHash dstHash) {s d : Nat}
    (hiso : Isomorphic src dst s d) : srcHash s = dstHash d := by
  obtain ⟨hs, hd, -⟩ := isomorphic_iff.mp hiso
  exact (h s hs d hd).1 hiso

theorem exactIndex (h : HashesDiscern src dst srcHash dstHash) :
    (MatchProblem.ofDigests src dst src.measures dst.measures srcHash dstHash).ExactIndex where
  srcHeight_lt := Tree.height_lt_of_mem_children
  dstHeight_lt := Tree.height_lt_of_mem_children
  height_eq heq := congrArg Measure.height (measures_eq_of_isomorphic heq)
  alikeSrc_of_equal heq heq' := beq_iff_eq.mpr ((h.hash_eq heq).trans (h.hash_eq heq').symm)
  alike_of_equal heq := beq_iff_eq.mpr (h.hash_eq heq)
  equal_of_alike hs hd hheight halike := (h _ hs _ hd).2 hheight (beq_iff_eq.mp halike)
  equal_of_alikeSrc {s a d} ha hheight heq halike := by
    -- the hash of `a` is that of `s` and so that of `d`, and so is its height
    obtain ⟨-, hd, -⟩ := isomorphic_iff.mp heq
    have hlevel := hheight.trans (congrArg Measure.height (measures_eq_of_isomorphic heq))
    exact (h a ha d hd).2 hlevel ((beq_iff_eq.mp halike).symm.trans (h.hash_eq heq))

theorem solve_eq (h : HashesDiscern src dst srcHash dstHash) (options : MatchOptions) :
    (MatchProblem.ofDigests src dst src.measures dst.measures srcHash dstHash).solve options =
      (MatchProblem.byIsomorphism src dst).solve options := by
  have hanswers := MatchProblem.SameAnswers.of_exactIndex h.exactIndex
    (MatchProblem.exactIndex_byIsomorphism src dst)
  exact hanswers.solve options

end HashesDiscern

/-- **The digest is an index only.** Any hash that discerns leads to the mapping that comparison
leads to, the digest of the measures among them, and by comparison the top-down phase from `dst` to
`src` is the inverse of the one from `src` to `dst`. -/
theorem digest_is_index (src dst : Tree) :
    (∀ srcHash dstHash, HashesDiscern src dst srcHash dstHash → ∀ options,
      (MatchProblem.ofDigests src dst src.measures dst.measures srcHash dstHash).solve options =
        (MatchProblem.byIsomorphism src dst).solve options) ∧
    (HashesDiscern src dst (fun s => (src.measures.of s).digest)
        (fun d => (dst.measures.of d).digest) →
      ∀ options, matchTrees options src dst = (MatchProblem.byIsomorphism src dst).solve options) ∧
    ∀ minHeight s d,
      ((MatchProblem.byIsomorphism src dst).topDown minHeight).dstOf? s = some d ↔
        ((MatchProblem.byIsomorphism dst src).topDown minHeight).dstOf? d = some s := by
  refine ⟨fun _ _ h => h.solve_eq, fun h => h.solve_eq, fun minHeight => ?_⟩
  exact (MatchProblem.mirrors_byIsomorphism src dst).topDown
    (MatchProblem.exactIndex_byIsomorphism src dst) (MatchProblem.exactIndex_byIsomorphism dst src)
    minHeight

/-- For a call that is put under a condition it is enough to tell the file from the condition, which
has the same height. All parts of the call may have one hash. -/
theorem digest_is_index_under_condition :
    let src := fileOf callOfF
    let dst := fileOf (ifOf [callOfF])
    let srcHash : Nat → UInt64 := fun s => if s = src.root then 1 else 0
    let dstHash : Nat → UInt64 := fun _ => 0
    HashesDiscern src dst srcHash dstHash ∧
      (MatchProblem.ofDigests src dst src.measures dst.measures srcHash dstHash).solve {} =
        (MatchProblem.byIsomorphism src dst).solve {} ∧
      matchTrees {} src dst = (MatchProblem.byIsomorphism src dst).solve {} := by
  intro src dst srcHash dstHash
  have hhash : HashesDiscern src dst srcHash dstHash := by decide +kernel
  have hown : HashesDiscern src dst (fun s => (src.measures.of s).digest)
      (fun d => (dst.measures.of d).digest) := by
    decide +kernel
  obtain ⟨hany, hdigest, -⟩ := digest_is_index src dst
  exact ⟨hhash, hany srcHash dstHash hhash {}, hdigest hown {}⟩

end CallDelta

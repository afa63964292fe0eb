import CallDelta.Proofs.HeightRounds
import CallDelta.Tree.Growth

/-!
# The links that a run asks for

A matcher asks for one link after the other and does not look at the answers. Here its requests are
listed in the order in which they are made, each with the place that it comes from
(`MatchProblem.requests`). The run is then nothing but its requests (`MatchProblem.solve_eq_serve`),
and what becomes of a request can be asked at the mapping that the requests before it have left.

* `Mapping.grantsAll_of_spares`: requests for unpaired nodes that do not get in each other's way are
  granted
* `MatchProblem.grantsAll_subtreeRequests`, `MatchProblem.grantsAll_loneRequests`: so it is with
  whole subtrees, and with children whose type occurs once
* `MatchProblem.grantsAll_requests`: and so in a whole run, apart from only leaves
* `links_refused_at_only_leaves`: all of this for two trees
-/

namespace CallDelta

/-! ## Requests -/

/-- The place in the matcher that asks for a link. -/
inductive LinkSite where
  /-- Two whole subtrees are paired, node by node. -/
  | subtree
  /-- A node gets its partner in the bottom-up phase. -/
  | partner
  /-- Two children of a fresh pair are the only ones of their type. -/
  | loneChild
  /-- Each of two such children has a leaf as its only child. -/
  | onlyLeaf
  deriving DecidableEq

/-- A link that is asked for. -/
structure LinkRequest where
  site : LinkSite
  src : Nat
  dst : Nat
  deriving DecidableEq

namespace LinkRequest

/-- The requests of a site for some pairs. -/
def ofPairs (site : LinkSite) (pairs : List (Nat × Nat)) : List LinkRequest :=
  pairs.map fun pair => { site, src := pair.1, dst := pair.2 }

/-- Request `q` takes none of the nodes of `r`, unless `r` is for an only leaf. -/
def Spares (q r : LinkRequest) : Prop := r.site ≠ .onlyLeaf → q.src ≠ r.src ∧ q.dst ≠ r.dst

theorem spares_of_mem_onlyLeaf {q r : LinkRequest} {pairs : List (Nat × Nat)}
    (hr : r ∈ ofPairs .onlyLeaf pairs) : q.Spares r := by
  intro hsite
  obtain ⟨pair, -, rfl⟩ := List.mem_map.mp hr
  exact absurd rfl hsite

end LinkRequest

namespace Mapping

variable {m : Mapping} {r : LinkRequest} {requests before after : List LinkRequest}

/-- The mapping after some requests. -/
def serve (m : Mapping) (requests : List LinkRequest) : Mapping :=
  m.linkAll (requests.map fun r => (r.src, r.dst))

/-- Whether a link that is asked for is taken in. -/
def grants (m : Mapping) (r : LinkRequest) : Bool := (m.link? r.src r.dst).isSome

theorem serve_cons (m : Mapping) (r : LinkRequest) (requests : List LinkRequest) :
    m.serve (r :: requests) = (m.link r.src r.dst).serve requests := rfl

theorem serve_append (m : Mapping) (xs ys : List LinkRequest) :
    m.serve (xs ++ ys) = (m.serve xs).serve ys := by
  rw [serve, List.map_append, linkAll_append]
  rfl

theorem serve_ofPairs (m : Mapping) (site : LinkSite) (pairs : List (Nat × Nat)) :
    m.serve (LinkRequest.ofPairs site pairs) = m.linkAll pairs := by
  simp [serve, LinkRequest.ofPairs, Function.comp_def]

theorem grants_iff : m.grants r = true ↔ m.dstOf? r.src = none ∧ m.srcOf? r.dst = none :=
  link?_isSome_iff

/-- Every request is granted when its turn comes, apart from those for only leaves. -/
def GrantsAll (m : Mapping) : List LinkRequest → Prop
  | [] => True
  | r :: requests =>
    (r.site ≠ .onlyLeaf → m.grants r = true) ∧ GrantsAll (m.link r.src r.dst) requests

theorem GrantsAll.append (hbefore : m.GrantsAll before)
    (hafter : (m.serve before).GrantsAll after) : m.GrantsAll (before ++ after) := by
  induction before generalizing m with
  | nil => exact hafter
  | cons r before ih => exact ⟨hbefore.1, ih hbefore.2 hafter⟩

theorem GrantsAll.grants (h : m.GrantsAll (before ++ r :: after)) (hr : r.site ≠ .onlyLeaf) :
    (m.serve before).grants r = true := by
  induction before generalizing m with
  | nil => exact h.1 hr
  | cons q before ih => exact ih h.2

/-- A link leaves the nodes of a request unpaired that it spares. -/
theorem unpaired_link {q : LinkRequest} (hspares : q.src ≠ r.src ∧ q.dst ≠ r.dst)
    (h : m.dstOf? r.src = none ∧ m.srcOf? r.dst = none) :
    (m.link q.src q.dst).dstOf? r.src = none ∧ (m.link q.src q.dst).srcOf? r.dst = none := by
  constructor
  · refine Option.eq_none_iff_forall_ne_some.mpr ?_
    intro d hd
    rcases dstOf?_link_iff.mp hd with hd | ⟨-, -, hsrc, -⟩
    · rw [h.1] at hd
      cases hd
    · exact hspares.1 hsrc.symm
  · refine Option.eq_none_iff_forall_ne_some.mpr ?_
    intro s hs
    rcases dstOf?_link_iff.mp (dstOf?_eq_some_iff.mpr hs) with hs | ⟨-, -, -, hdst⟩
    · rw [dstOf?_eq_some_iff, h.2] at hs
      cases hs
    · exact hspares.2 hdst.symm

/-- **Requests for unpaired nodes are granted if each of them spares the later ones.** -/
theorem grantsAll_of_spares (hspares : requests.Pairwise LinkRequest.Spares)
    (hunpaired : ∀ r ∈ requests, r.site ≠ .onlyLeaf →
      m.dstOf? r.src = none ∧ m.srcOf? r.dst = none) : m.GrantsAll requests := by
  induction requests generalizing m with
  | nil => trivial
  | cons q requests ih =>
    obtain ⟨hfirst, hrest⟩ := List.pairwise_cons.mp hspares
    refine ⟨?_, ih hrest ?_⟩
    · intro hq
      exact grants_iff.mpr (hunpaired q List.mem_cons_self hq)
    · intro r hr hsite
      exact unpaired_link (hfirst r hr hsite) (hunpaired r (List.mem_cons_of_mem _ hr) hsite)

end Mapping

/-! ## Requests of steps -/

/-- The requests of steps that are taken one after the other, each at the mapping that the steps
before it have left. -/
def requestsAlong (step : Mapping → Nat → List LinkRequest) : Mapping → List Nat → List LinkRequest
  | _, [] => []
  | m, i :: is => step m i ++ requestsAlong step (m.serve (step m i)) is

section Steps

variable {step : Mapping → Nat → List LinkRequest} {f : Mapping → Nat → Mapping} {m : Mapping}
  {is : List Nat}

theorem foldl_eq_serve (h : ∀ m i, f m i = m.serve (step m i)) (m : Mapping) (is : List Nat) :
    is.foldl f m = m.serve (requestsAlong step m is) := by
  induction is generalizing m with
  | nil => rfl
  | cons i is ih => rw [List.foldl_cons, ih, h, requestsAlong, Mapping.serve_append]

/-- Where every step grants its requests, and keeps what the next steps rely on, all steps do. -/
theorem grantsAll_requestsAlong (P : Mapping → List Nat → Prop) (hm : P m is)
    (hstep : ∀ m i is, P m (i :: is) → m.GrantsAll (step m i) ∧ P (m.serve (step m i)) is) :
    m.GrantsAll (requestsAlong step m is) := by
  induction is generalizing m with
  | nil => trivial
  | cons i is ih =>
    obtain ⟨hgrants, hnext⟩ := hstep m i is hm
    exact hgrants.append (ih hnext)

end Steps

namespace MatchProblem

variable {p : MatchProblem} {m : Mapping} {s d : Nat} {tops pairs : List (Nat × Nat)}

/-! ## The requests of a run -/

/-- The requests for whole subtrees, given by their tops. -/
def subtreeRequests (p : MatchProblem) (tops : List (Nat × Nat)) : List LinkRequest :=
  tops.flatMap fun top =>
    LinkRequest.ofPairs .subtree ((p.src.preOrder top.1).zip (p.dst.preOrder top.2))

/-- The requests for children whose type occurs once, each with its only leaf. -/
def loneRequests (p : MatchProblem) (pairs : List (Nat × Nat)) : List LinkRequest :=
  pairs.flatMap fun pair =>
    { site := .loneChild, src := pair.1, dst := pair.2 } ::
      LinkRequest.ofPairs .onlyLeaf (p.onlyLeaves pair.1 pair.2)

/-- The requests for children of a fresh pair. -/
def recoverRequests (p : MatchProblem) (m : Mapping) (s d : Nat) : List LinkRequest :=
  let whole := p.subtreeRequests (p.equalChildren m s d)
  whole ++ p.loneRequests (p.loneChildren (m.serve whole) s d)

/-- The requests of the bottom-up phase at one source node. -/
def settleRequests (p : MatchProblem) (threshold : Float) (m : Mapping) (s : Nat) :
    List LinkRequest :=
  match p.partner? threshold m s with
  | some d => { site := .partner, src := s, dst := d } :: p.recoverRequests (m.link s d) s d
  | none => []

/-- The requests of the top-down phase. -/
def topDownRequests (p : MatchProblem) (minHeight : Nat) : List LinkRequest :=
  requestsAlong (fun m height => p.subtreeRequests (p.uniquePairs m height)) .empty
    (p.heights minHeight)

/-- The requests of the bottom-up phase. -/
def bottomUpRequests (p : MatchProblem) (threshold : Float) (m : Mapping) : List LinkRequest :=
  requestsAlong (p.settleRequests threshold) m p.src.ids.reverse

/-- The requests of a run. -/
def requests (p : MatchProblem) (options : MatchOptions) : List LinkRequest :=
  p.topDownRequests options.minHeight ++
    p.bottomUpRequests options.threshold (p.topDown options.minHeight)

theorem linkSubtreesAll_eq_serve (p : MatchProblem) (m : Mapping) (tops : List (Nat × Nat)) :
    p.linkSubtreesAll m tops = m.serve (p.subtreeRequests tops) := by
  induction tops generalizing m with
  | nil => rfl
  | cons top tops ih =>
    rw [subtreeRequests, List.flatMap_cons, Mapping.serve_append, Mapping.serve_ofPairs]
    exact ih _

theorem foldl_linkLone_eq_serve (p : MatchProblem) (m : Mapping) (pairs : List (Nat × Nat)) :
    pairs.foldl p.linkLone m = m.serve (p.loneRequests pairs) := by
  induction pairs generalizing m with
  | nil => rfl
  | cons pair pairs ih =>
    rw [loneRequests, List.flatMap_cons, Mapping.serve_append, Mapping.serve_cons,
      Mapping.serve_ofPairs]
    exact ih _

theorem settle_eq_serve (p : MatchProblem) (threshold : Float) (m : Mapping) (s : Nat) :
    p.settle threshold m s = m.serve (p.settleRequests threshold m s) := by
  unfold settle settleRequests
  cases p.partner? threshold m s with
  | none => rfl
  | some d =>
    simp only [settlePair, recover, recoverRequests, Mapping.serve_cons, Mapping.serve_append,
      linkSubtreesAll_eq_serve, foldl_linkLone_eq_serve]

theorem topDown_eq_serve (p : MatchProblem) (minHeight : Nat) :
    p.topDown minHeight = Mapping.empty.serve (p.topDownRequests minHeight) :=
  foldl_eq_serve (fun m height => p.linkSubtreesAll_eq_serve m (p.uniquePairs m height)) _ _

/-- **A run is its requests, one after the other.** -/
theorem solve_eq_serve (p : MatchProblem) (options : MatchOptions) :
    p.solve options = Mapping.empty.serve (p.requests options) := by
  rw [requests, Mapping.serve_append, ← topDown_eq_serve]
  exact foldl_eq_serve (p.settle_eq_serve options.threshold) _ _

/-! ## Whole subtrees -/

theorem subtreeRequests_eq (heq : ∀ top ∈ tops, p.equal top.1 top.2 = true) :
    p.subtreeRequests tops = LinkRequest.ofPairs .subtree (p.linksBelow tops) := by
  induction tops with
  | nil => simp [subtreeRequests, linksBelow, LinkRequest.ofPairs]
  | cons top tops ih =>
    obtain ⟨htop, htops⟩ := List.forall_mem_cons.mp heq
    have hfits := fits_of_equal htop
    have hlen := (forall₂_preOrder htop).length_eq
    have hbelow : p.linksBelow (top :: tops) =
        (p.src.preOrder top.1).zip (p.dst.preOrder top.2) ++ p.linksBelow tops := by
      rw [linksBelow, List.map_cons, List.map_cons, Tree.visit_cons_of_lt hfits.src_lt,
        Tree.visit_cons_of_lt hfits.dst_lt, List.zip_append hlen]
      rfl
    rw [hbelow, LinkRequest.ofPairs, List.map_append, ← LinkRequest.ofPairs, ← LinkRequest.ofPairs,
      ← ih htops]
    rfl

theorem grantsAll_subtreeRequests (h : p.Linkable m tops) :
    m.GrantsAll (p.subtreeRequests tops) := by
  rw [subtreeRequests_eq h.equal]
  refine Mapping.grantsAll_of_spares ?_ ?_
  · have hfst : (p.linksBelow tops).Pairwise (fun a b => a.1 ≠ b.1) :=
      List.pairwise_map.mp h.fst_nodup
    have hsnd : (p.linksBelow tops).Pairwise (fun a b => a.2 ≠ b.2) :=
      List.pairwise_map.mp h.snd_nodup
    refine List.pairwise_map.mpr ((hfst.and hsnd).imp ?_)
    intro a b hne _
    exact hne
  · intro r hr _
    obtain ⟨pair, hpair, rfl⟩ := List.mem_map.mp hr
    exact h.unpaired hpair

/-! ## Children whose type occurs once -/

/-- No child occurs in two of the pairs. -/
theorem loneChildren_pairwise (p : MatchProblem) (m : Mapping) (s d : Nat) :
    (p.loneChildren m s d).Pairwise (fun a b => a.1 ≠ b.1 ∧ a.2 ≠ b.2) := by
  have hnodup : (p.freeSrcChildren m s).Nodup := (p.src.children_nodup s).filter _
  have hfst : (p.loneChildren m s d).Pairwise (fun a b => a.1 ≠ b.1) := by
    refine List.pairwise_filterMap.mpr (hnodup.imp ?_)
    intro c e hne pair hpair pair' hpair'
    split at hpair
    · split at hpair'
      · cases hpair
        cases hpair'
        exact hne
      · cases hpair'
    · cases hpair
  refine hfst.imp_of_mem ?_
  rintro ⟨c, c'⟩ ⟨e, e'⟩ hc he hne
  refine ⟨hne, ?_⟩
  rintro (rfl : c' = e')
  -- with one partner the two are of one type, and then neither is the only one
  obtain ⟨hcMem, ⟨a, ha⟩, -⟩ := mem_loneChildren_iff.mp hc
  have heMem := (mem_loneChildren he).1
  have htype : p.src.typeName e = p.src.typeName c :=
    (mem_loneChildren he).2.2.typeName_eq.trans (mem_loneChildren hc).2.2.typeName_eq.symm
  have hca : c ∈ [a] := ha ▸ List.mem_filter.mpr ⟨hcMem, beq_self_eq_true _⟩
  have hea : e ∈ [a] := ha ▸ List.mem_filter.mpr ⟨heMem, beq_iff_eq.mpr htype⟩
  exact hne ((List.mem_singleton.mp hca).trans (List.mem_singleton.mp hea).symm)

/-- A grandchild is no child. -/
theorem ne_of_mem_children {t : Tree} {i a b c : Nat} (ha : a ∈ t.children i)
    (hc : c ∈ t.children a) (hb : b ∈ t.children i) : c ≠ b := by
  rintro rfl
  have hparent := Tree.mem_children.mp hc
  rw [Tree.mem_children.mp hb, Option.some.injEq] at hparent
  exact Nat.ne_of_lt (Tree.lt_of_mem_children ha) hparent

theorem loneRequests_pairwise (p : MatchProblem) (m : Mapping) (s d : Nat) :
    (p.loneRequests (p.loneChildren m s d)).Pairwise LinkRequest.Spares := by
  refine List.pairwise_flatMap.mpr ⟨?_, (p.loneChildren_pairwise m s d).imp_of_mem ?_⟩
  · -- behind the child there is only its leaf
    intro pair _
    refine List.pairwise_cons.mpr ⟨?_, List.pairwise_of_forall_mem_list ?_⟩
    · intro r hr
      exact LinkRequest.spares_of_mem_onlyLeaf hr
    · intro q _ r hr
      exact LinkRequest.spares_of_mem_onlyLeaf hr
  · intro a b ha hb hne q hq r hr
    obtain ⟨haSrc, haDst, -⟩ := mem_loneChildren ha
    obtain ⟨hbSrc, hbDst, -⟩ := mem_loneChildren hb
    rcases List.mem_cons.mp hr with rfl | hr
    · intro _
      rcases List.mem_cons.mp hq with rfl | hq
      · exact hne
      · obtain ⟨leaf, hleaf, rfl⟩ := List.mem_map.mp hq
        obtain ⟨hleafSrc, hleafDst, -⟩ := mem_onlyLeaves hleaf
        exact ⟨
          ne_of_mem_children (List.mem_filter.mp haSrc).1 hleafSrc (List.mem_filter.mp hbSrc).1,
          ne_of_mem_children (List.mem_filter.mp haDst).1 hleafDst (List.mem_filter.mp hbDst).1⟩
    · exact LinkRequest.spares_of_mem_onlyLeaf hr

theorem grantsAll_loneRequests (p : MatchProblem) (m : Mapping) (s d : Nat) :
    m.GrantsAll (p.loneRequests (p.loneChildren m s d)) := by
  refine Mapping.grantsAll_of_spares (p.loneRequests_pairwise m s d) ?_
  intro r hr hsite
  obtain ⟨pair, hpair, hr⟩ := List.mem_flatMap.mp hr
  obtain ⟨hsrc, hdst, -⟩ := mem_loneChildren hpair
  rcases List.mem_cons.mp hr with rfl | hr
  · simp only [freeSrcChildren, freeDstChildren, List.mem_filter, Bool.not_eq_true'] at hsrc hdst
    exact ⟨Mapping.hasSrc_eq_false_iff.mp hsrc.2, Mapping.hasDst_eq_false_iff.mp hdst.2⟩
  · obtain ⟨leaf, -, rfl⟩ := List.mem_map.mp hr
    exact absurd rfl hsite

/-! ## A whole run -/

/-- At any mapping whatsoever, the bottom-up phase gets the links that it asks for. -/
theorem grantsAll_settleRequests (p : MatchProblem) (threshold : Float) (m : Mapping) (s : Nat) :
    m.GrantsAll (p.settleRequests threshold m s) := by
  unfold settleRequests
  split
  · next d hpartner =>
    obtain ⟨hs, hd, -⟩ := partner?_cases hpartner
    refine ⟨?_, ?_⟩
    · intro _
      exact Mapping.grants_iff.mpr
        ⟨Mapping.hasSrc_eq_false_iff.mp hs, Mapping.hasDst_eq_false_iff.mp hd⟩
    · exact (grantsAll_subtreeRequests (p.linkable_equalChildren _ s d)).append
        (p.grantsAll_loneRequests _ s d)
  · trivial

theorem grantsAll_topDownRequests (hp : p.Sound) (minHeight : Nat) :
    Mapping.empty.GrantsAll (p.topDownRequests minHeight) := by
  -- the rounds go down, and what they leave behind makes room for the next one
  refine grantsAll_requestsAlong (fun m heights => heights.Pairwise (· > ·) ∧
    ∃ level, p.LinkedDownTo level m ∧ ∀ k ∈ heights, k < level) ?_ ?_
  · obtain ⟨level, hlevel⟩ : ∃ level, ∀ k ∈ p.heights minHeight, k < level :=
      ⟨_, fun k hk => Nat.lt_succ_of_le (mem_heights_iff.mp hk).2⟩
    exact ⟨p.heights_pairwise minHeight, level, .empty p level, hlevel⟩
  · rintro m height heights ⟨hfalling, level, hlinked, hlevel⟩
    obtain ⟨hfirst, hrest⟩ := List.pairwise_cons.mp hfalling
    have hlt := hlevel height List.mem_cons_self
    refine ⟨grantsAll_subtreeRequests (linkable_uniquePairs hp hlinked hlt), hrest, height, ?_,
      hfirst⟩
    rw [← linkSubtreesAll_eq_serve]
    exact hlinked.heightRound hp hlt

/-- **In a run every link is taken in, unless it is for an only leaf.** -/
theorem grantsAll_requests (hp : p.Sound) (options : MatchOptions) :
    Mapping.empty.GrantsAll (p.requests options) := by
  refine (grantsAll_topDownRequests hp options.minHeight).append ?_
  rw [← topDown_eq_serve]
  exact grantsAll_requestsAlong (fun _ _ => True) trivial fun m s _ _ =>
    ⟨p.grantsAll_settleRequests options.threshold m s, trivial⟩

/-! ## After the top-down phase -/

/-- Subtrees are paired as a whole. -/
structure PairsWholeSubtrees (p : MatchProblem) (m : Mapping) : Prop where
  isomorphic : ∀ s d, m.dstOf? s = some d → isomorphic p.src s p.dst d = true
  children : ∀ s d, m.dstOf? s = some d →
    List.Forall₂ (fun a b => m.dstOf? a = some b) (p.src.children s) (p.dst.children d)
  src_closed : ∀ s, m.hasSrc s = true → ∀ i ∈ p.src.descendants s, m.hasSrc i = true
  dst_closed : ∀ d, m.hasDst d = true → ∀ j ∈ p.dst.descendants d, m.hasDst j = true

theorem LinkedDownTo.pairsWholeSubtrees {level : Nat} (h : p.LinkedDownTo level m) :
    p.PairsWholeSubtrees m where
  isomorphic _ _ hsd := h.equal hsd
  children _ _ hsd := h.children hsd
  src_closed s hs i hi := by
    obtain ⟨d, hsd⟩ := Mapping.hasSrc_iff.mp hs
    obtain ⟨b, hb⟩ := exists_dst_mem_zip (h.equal hsd) (List.mem_of_mem_tail hi)
    exact Mapping.hasSrc_iff.mpr ⟨b, (List.forall₂_iff_zip.mp (h.preOrder hsd)).2 hb⟩
  dst_closed d hd j hj := by
    obtain ⟨s, hsd⟩ := Mapping.hasDst_iff.mp hd
    rw [← Mapping.dstOf?_eq_some_iff] at hsd
    obtain ⟨a, ha⟩ := exists_src_mem_zip (h.equal hsd) (List.mem_of_mem_tail hj)
    have hpair := (List.forall₂_iff_zip.mp (h.preOrder hsd)).2 ha
    exact Mapping.hasDst_iff.mpr ⟨a, Mapping.dstOf?_eq_some_iff.mp hpair⟩

theorem pairsWholeSubtrees_topDown (hp : p.Sound) (minHeight : Nat) :
    p.PairsWholeSubtrees (p.topDown minHeight) :=
  (linkedDownTo_of_heights_eq hp (List.append_nil _).symm
    fun k _ => Nat.zero_le k).pairsWholeSubtrees

end MatchProblem

/-! ## Matching two trees -/

/-- A file with one identifier. -/
def fileOfIdentifier (name : String) : Tree :=
  .ofRose (.node { kind := .other, typeName := "translation_unit" } [identifierRose name none])

/-- A file with an identifier, and beside it a token that is no identifier. -/
def fileWithToken (name token : String) : Tree :=
  .ofRose (.node { kind := .other, typeName := "translation_unit" }
    [identifierRose name none,
      .node { kind := .other, typeName := "macro" }
        [.leaf { kind := .tokenLeaf, typeName := "token", label := some token }]])

/-- The token of an identifier has been paired by itself, and is asked for again with its
identifier. -/
theorem requests_fileWithToken :
    (MatchProblem.ofTrees (fileOfIdentifier "f") (fileWithToken "g" "f")).requests
      { minHeight := 1 } =
      [⟨.subtree, 2, 4⟩, ⟨.partner, 0, 0⟩, ⟨.loneChild, 1, 1⟩, ⟨.onlyLeaf, 2, 2⟩] := by
  decide +kernel

/-- **In every run every link is taken in that is not for an only leaf, and there is a run in which
one for an only leaf is refused. After the top-down phase whole subtrees are paired.** -/
theorem links_refused_at_only_leaves :
    (∀ (options : MatchOptions) (src dst : Tree),
      let p := MatchProblem.ofTrees src dst
      matchTrees options src dst = Mapping.empty.serve (p.requests options) ∧
      (∀ before r after, p.requests options = before ++ r :: after → r.site ≠ .onlyLeaf →
        (Mapping.empty.serve before).grants r = true) ∧
      p.topDown options.minHeight = Mapping.empty.serve (p.topDownRequests options.minHeight) ∧
      p.PairsWholeSubtrees (p.topDown options.minHeight)) ∧
    ∃ options src dst before r after,
      (MatchProblem.ofTrees src dst).requests options = before ++ r :: after ∧ r.site = .onlyLeaf ∧
        (Mapping.empty.serve before).grants r = false := by
  refine ⟨?_, ?_⟩
  · intro options src dst p
    have hp := MatchProblem.sound_ofTrees src dst
    refine ⟨p.solve_eq_serve options, ?_, p.topDown_eq_serve options.minHeight,
      MatchProblem.pairsWholeSubtrees_topDown hp options.minHeight⟩
    intro before r after hrequests hsite
    have hgrants := MatchProblem.grantsAll_requests hp options
    rw [hrequests] at hgrants
    exact hgrants.grants hsite
  · exact ⟨_, _, _, [⟨.subtree, 2, 4⟩, ⟨.partner, 0, 0⟩, ⟨.loneChild, 1, 1⟩], ⟨.onlyLeaf, 2, 2⟩, [],
      requests_fileWithToken, rfl, by decide +kernel⟩

end CallDelta

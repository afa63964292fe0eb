import CallDelta.Proofs.Lowered
import CallDelta.Proofs.UniqueSubtrees

/-!
# Identifiers are paired together with their tokens

In lowered trees an identifier is paired with an identifier exactly if their tokens are paired
(`MatchProblem.PairsIdentifiers`). Each phase keeps this:

* whole subtrees that are linked have an identifier along with its token, unless the token is the
  top (`MatchProblem.PairsIdentifiers.of_linksBelow`);
* no round pairs a token by itself, for what makes the token unique makes the identifier unique, one
  round earlier (`MatchProblem.kind?_ne_token_of_mem_uniquePairs`);
* the pass over the inner nodes gives no identifier a partner, since it shares no descendant with
  any node (`MatchProblem.kind?_ne_of_partner?`);
* an identifier that is linked because it is the only one among its siblings takes its token along
  (`MatchProblem.PairsIdentifiers.linkLone`).
-/

namespace CallDelta

/-! ## Heights -/

theorem Tree.Wraps.height_token {t : Tree} {w tok : Nat} (h : t.Wraps w tok) :
    (t.measures.of tok).height = 1 := by
  rw [of_measures (lt_size_of_kind? h.kind_token), h.children_token]
  rfl

theorem Tree.Wraps.height_identifier {t : Tree} {w tok : Nat} (h : t.Wraps w tok) :
    (t.measures.of w).height = 2 := by
  rw [of_measures (lt_size_of_kind? h.kind_identifier), h.children_identifier]
  simp [Measure.ofChildren, h.height_token]

namespace MatchProblem

variable {p : MatchProblem} {m m' : Mapping} {s d w tok w' tok' : Nat}

/-! ## Identifiers on both sides -/

/-- Both trees are lowered, and their type names tell identifiers and tokens from everything
else. -/
structure OfLowered (p : MatchProblem) : Prop where
  src : p.src.IsLowered
  dst : p.dst.IsLowered
  srcTypes : p.src.TypesTellKinds
  dstTypes : p.dst.TypesTellKinds

namespace OfLowered

theorem dst_identifier (hl : p.OfLowered) (hw : p.src.Wraps w tok) (h : p.Fits w d) :
    ∃ tok', p.dst.Wraps d tok' :=
  hl.dst.exists_token d (hl.dstTypes.identifier d (h.typeName_eq.symm.trans hw.typeName_identifier))

theorem dst_token (hl : p.OfLowered) (hw : p.src.Wraps w tok) (h : p.Fits tok d) :
    ∃ w', p.dst.Wraps w' d :=
  hl.dst.exists_identifier d (hl.dstTypes.token d (h.typeName_eq.symm.trans hw.typeName_token))

theorem src_identifier (hl : p.OfLowered) (hw : p.dst.Wraps w' tok') (h : p.Fits s w') :
    ∃ tok, p.src.Wraps s tok :=
  hl.src.exists_token s (hl.srcTypes.identifier s (h.typeName_eq.trans hw.typeName_identifier))

theorem src_token (hl : p.OfLowered) (hw : p.dst.Wraps w' tok') (h : p.Fits s tok') :
    ∃ w, p.src.Wraps w s :=
  hl.src.exists_identifier s (hl.srcTypes.token s (h.typeName_eq.trans hw.typeName_token))

end OfLowered

/-- Identifiers are equal exactly if their tokens are. -/
theorem equal_identifiers_iff (hw : p.src.Wraps w tok) (hw' : p.dst.Wraps w' tok') :
    p.equal w w' = true ↔ p.equal tok tok' = true := by
  change Isomorphic p.src p.dst w w' ↔ Isomorphic p.src p.dst tok tok'
  rw [isomorphic_iff, hw.children_identifier, hw'.children_identifier, hw.typeName_identifier,
    hw'.typeName_identifier, hw.label_identifier, hw'.label_identifier]
  simp [Tree.lt_size_of_kind? hw.kind_identifier, Tree.lt_size_of_kind? hw'.kind_identifier]

/-- The pairs are of one type each, and an identifier is paired with an identifier exactly if their
tokens are paired. -/
structure PairsIdentifiers (p : MatchProblem) (m : Mapping) : Prop where
  fits : ∀ {s d}, m.dstOf? s = some d → p.Fits s d
  together : ∀ {w tok w' tok'}, p.src.Wraps w tok → p.dst.Wraps w' tok' →
    (m.dstOf? w = some w' ↔ m.dstOf? tok = some tok')

namespace PairsIdentifiers

theorem empty (p : MatchProblem) : p.PairsIdentifiers .empty := by
  constructor <;> simp

theorem hasSrc_eq (hl : p.OfLowered) (h : p.PairsIdentifiers m) (hw : p.src.Wraps w tok) :
    m.hasSrc w = m.hasSrc tok := by
  rw [Bool.eq_iff_iff, Mapping.hasSrc_iff, Mapping.hasSrc_iff]
  constructor
  · rintro ⟨d, hd⟩
    obtain ⟨tok', hw'⟩ := hl.dst_identifier hw (h.fits hd)
    exact ⟨tok', (h.together hw hw').mp hd⟩
  · rintro ⟨d, hd⟩
    obtain ⟨w', hw'⟩ := hl.dst_token hw (h.fits hd)
    exact ⟨w', (h.together hw hw').mpr hd⟩

theorem hasDst_eq (hl : p.OfLowered) (h : p.PairsIdentifiers m) (hw' : p.dst.Wraps w' tok') :
    m.hasDst w' = m.hasDst tok' := by
  rw [Bool.eq_iff_iff, Mapping.hasDst_iff, Mapping.hasDst_iff]
  simp only [← Mapping.dstOf?_eq_some_iff]
  constructor
  · rintro ⟨s, hs⟩
    obtain ⟨tok, hw⟩ := hl.src_identifier hw' (h.fits hs)
    exact ⟨tok, (h.together hw hw').mp hs⟩
  · rintro ⟨s, hs⟩
    obtain ⟨w, hw⟩ := hl.src_token hw' (h.fits hs)
    exact ⟨w, (h.together hw hw').mpr hs⟩

/-! ## Links that keep identifiers and tokens together -/

/-- New pairs keep identifiers and tokens together if they do so among themselves. -/
theorem extend (h : p.PairsIdentifiers m) {pairs : List (Nat × Nat)}
    (hnew : ∀ {s d}, m'.dstOf? s = some d ↔ m.dstOf? s = some d ∨ (s, d) ∈ pairs)
    (hfits : ∀ {s d}, (s, d) ∈ pairs → p.Fits s d)
    (htogether : ∀ {w tok w' tok'}, p.src.Wraps w tok → p.dst.Wraps w' tok' →
      ((w, w') ∈ pairs ↔ (tok, tok') ∈ pairs)) : p.PairsIdentifiers m' where
  fits hsd := (hnew.mp hsd).elim h.fits hfits
  together hw hw' := by
    rw [hnew, hnew, h.together hw hw', htogether hw hw']

/-- Whole subtrees keep identifiers and tokens together if no token is at the top. -/
theorem of_linksBelow (h : p.PairsIdentifiers m) {tops : List (Nat × Nat)}
    (heq : ∀ top ∈ tops, p.equal top.1 top.2 = true)
    (htop : ∀ top ∈ tops, p.src.kind? top.1 ≠ some .tokenLeaf)
    (hnew : ∀ {s d}, m'.dstOf? s = some d ↔ m.dstOf? s = some d ∨ (s, d) ∈ p.linksBelow tops) :
    p.PairsIdentifiers m' := by
  have htops := forall₂_tops heq
  refine h.extend hnew (fun hmem => ?_) fun {w tok w' tok'} hw hw' =>
    ⟨fun hmem => ?_, fun hmem => ?_⟩
  · exact fits_of_equal ((List.forall₂_iff_zip.mp (forall₂_visit htops)).2 hmem)
  · have hchildren := children_of_mem_zip_visit htops hmem
    rw [hw.children_identifier, hw'.children_identifier, List.forall₂_cons] at hchildren
    exact hchildren.1
  · rcases parents_of_mem_zip_visit htops hmem with hfirst | ⟨ps, pd, hps, hpd, hmet⟩
    · rw [zip_tops] at hfirst
      exact absurd hw.kind_token (htop _ hfirst)
    · rw [hw.parent_token, Option.some.injEq] at hps
      rw [hw'.parent_token, Option.some.injEq] at hpd
      rw [hps, hpd]
      exact hmet

/-- A link between other nodes does not matter. -/
theorem link_other (h : p.PairsIdentifiers m) (hfits : p.Fits s d)
    (hwrapper : p.src.kind? s ≠ some .identifierWrapper)
    (htoken : p.src.kind? s ≠ some .tokenLeaf) : p.PairsIdentifiers (m.link s d) where
  fits hsd := by
    rcases Mapping.dstOf?_link_iff.mp hsd with hsd | ⟨-, -, rfl, rfl⟩
    · exact h.fits hsd
    · exact hfits
  together {w tok w' tok'} hw hw' := by
    have hsw : w ≠ s := fun he => hwrapper (he ▸ hw.kind_identifier)
    have hst : tok ≠ s := fun he => htoken (he ▸ hw.kind_token)
    rw [Mapping.dstOf?_link_iff, Mapping.dstOf?_link_iff, h.together hw hw']
    simp [hsw, hst]

/-- An identifier and its token are both linked, or neither is. -/
theorem link_identifier (hl : p.OfLowered) (h : p.PairsIdentifiers m) (hw : p.src.Wraps w tok)
    (hw' : p.dst.Wraps w' tok') : p.PairsIdentifiers ((m.link w w').link tok tok') := by
  by_cases htaken : m.hasSrc w = true ∨ m.hasDst w' = true
  · have htaken' : m.hasSrc tok = true ∨ m.hasDst tok' = true := by
      rwa [← h.hasSrc_eq hl hw, ← h.hasDst_eq hl hw']
    rw [Mapping.link_eq_self htaken, Mapping.link_eq_self htaken']
    exact h
  · obtain ⟨hsrc, hdst⟩ := not_or.mp htaken
    rw [Bool.not_eq_true] at hsrc hdst
    have hsrcTok := (h.hasSrc_eq hl hw).symm.trans hsrc
    have hdstTok := (h.hasDst_eq hl hw').symm.trans hdst
    rw [Mapping.hasSrc_eq_false_iff] at hsrc hsrcTok
    rw [Mapping.hasDst_eq_false_iff] at hdst hdstTok
    have hne : w ≠ tok := Nat.ne_of_lt (Tree.lt_of_parent? hw.parent_token)
    have hne' : w' ≠ tok' := Nat.ne_of_lt (Tree.lt_of_parent? hw'.parent_token)
    have hnew : ∀ {s d}, (m.linkAll [(w, w'), (tok, tok')]).dstOf? s = some d ↔
        m.dstOf? s = some d ∨ (s, d) ∈ [(w, w'), (tok, tok')] :=
      Mapping.dstOf?_linkAll_iff (by simpa using hne) (by simpa using hne')
        (by simp [hsrc, hsrcTok])
        (by simp [hdst, hdstTok])
    show p.PairsIdentifiers (m.linkAll [(w, w'), (tok, tok')])
    refine h.extend hnew (fun hmem => ?_) fun {v u v' u'} hv hv' => ?_
    · rcases List.mem_pair.mp hmem with he | he <;> cases he
      · exact ⟨Tree.lt_size_of_kind? hw.kind_identifier, Tree.lt_size_of_kind? hw'.kind_identifier,
          hw.typeName_identifier.trans hw'.typeName_identifier.symm⟩
      · exact ⟨Tree.lt_size_of_kind? hw.kind_token, Tree.lt_size_of_kind? hw'.kind_token,
          hw.typeName_token.trans hw'.typeName_token.symm⟩
    · simp [hv.ne_token hw, (hw.ne_token hv).symm, hv.eq_iff hw, hv'.eq_iff hw']

end PairsIdentifiers

/-! ## The top-down phase -/

section TopDown

variable {src dst : Tree} (hl : (ofTrees src dst).OfLowered)

include hl

theorem mem_srcCandidates_identifier_iff (h : (ofTrees src dst).PairsIdentifiers m)
    (hw : src.Wraps w tok) :
    w ∈ (ofTrees src dst).srcCandidates m 2 ↔ tok ∈ (ofTrees src dst).srcCandidates m 1 := by
  have hidentifier : (ofTrees src dst).srcHeight w = 2 := hw.height_identifier
  have htoken : (ofTrees src dst).srcHeight tok = 1 := hw.height_token
  have hwLt : w < (ofTrees src dst).src.size := Tree.lt_size_of_kind? hw.kind_identifier
  have htokLt : tok < (ofTrees src dst).src.size := Tree.lt_size_of_kind? hw.kind_token
  rw [mem_srcCandidates_iff, mem_srcCandidates_iff, h.hasSrc_eq hl hw]
  simp [hidentifier, htoken, hwLt, htokLt]

theorem mem_dstCandidates_identifier_iff (h : (ofTrees src dst).PairsIdentifiers m)
    (hw' : dst.Wraps w' tok') :
    w' ∈ (ofTrees src dst).dstCandidates m 2 ↔ tok' ∈ (ofTrees src dst).dstCandidates m 1 := by
  have hidentifier : (ofTrees src dst).dstHeight w' = 2 := hw'.height_identifier
  have htoken : (ofTrees src dst).dstHeight tok' = 1 := hw'.height_token
  have hwLt : w' < (ofTrees src dst).dst.size := Tree.lt_size_of_kind? hw'.kind_identifier
  have htokLt : tok' < (ofTrees src dst).dst.size := Tree.lt_size_of_kind? hw'.kind_token
  rw [mem_dstCandidates_iff, mem_dstCandidates_iff, h.hasDst_eq hl hw']
  simp [hidentifier, htoken, hwLt, htokLt]

/-- No round pairs a token by itself: a token that is unique in the round of height 1 has an
identifier that was unique in the round before. -/
theorem kind?_ne_token_of_mem_uniquePairs (hdiscerns : (ofTrees src dst).Discerns) {height : Nat}
    {top : Nat × Nat}
    (h : (ofTrees src dst).PairsIdentifiers ((ofTrees src dst).topDown (height + 1)))
    (htop : top ∈ (ofTrees src dst).uniquePairs ((ofTrees src dst).topDown (height + 1)) height) :
    src.kind? top.1 ≠ some .tokenLeaf := by
  intro hkind
  have hp := sound_ofTrees src dst
  obtain ⟨tok, tok'⟩ := top
  obtain ⟨w, hw⟩ := hl.src.exists_identifier tok hkind
  obtain ⟨hsrc, hdst, heq⟩ := mem_uniquePairs htop
  obtain ⟨w', hw'⟩ := hl.dst_token hw (fits_of_equal heq)
  obtain rfl : height = 1 := (mem_srcCandidates_iff.mp hsrc).2.2.symm.trans hw.height_token
  have hmost : 2 ≤ (ofTrees src dst).srcHeight src.root :=
    hw.height_identifier ▸ srcHeight_le_root hp (Tree.lt_size_of_kind? hw.kind_identifier)
  have hround : (ofTrees src dst).topDown (1 + 1) =
      (ofTrees src dst).heightRound ((ofTrees src dst).topDown 3) 2 :=
    topDown_eq_heightRound (by decide) (Nat.le_trans hmost (Nat.le_max_left _ _))
  have hwSrc := (mem_srcCandidates_identifier_iff hl h hw).mpr hsrc
  have hwDst := (mem_dstCandidates_identifier_iff hl h hw').mpr hdst
  have hwEq := (equal_identifiers_iff hw hw').mpr heq
  -- the round before left the two identifiers unpaired, so one of them has a rival
  have hrival := hround ▸ exists_rival hp hdiscerns (linkedDownTo_topDown hp (by decide))
    (Nat.lt_succ_self 2) (hround ▸ hwSrc) (hround ▸ hwDst) hwEq
  rcases hrival with ⟨v, hv, hne, hvEq⟩ | ⟨v', hv', hne, hvEq⟩
  · obtain ⟨u, hvu⟩ := hl.src_identifier hw' (fits_of_equal hvEq)
    have hu := (mem_srcCandidates_identifier_iff hl h hvu).mp hv
    have huEq := (equal_identifiers_iff hvu hw').mp hvEq
    exact hne ((hvu.eq_iff hw).mpr (fst_eq_of_mem_uniquePairs hp htop hu heq huEq).symm)
  · obtain ⟨u', hvu'⟩ := hl.dst_identifier hw (fits_of_equal hvEq)
    have hu' := (mem_dstCandidates_identifier_iff hl h hvu').mp hv'
    have huEq := (equal_identifiers_iff hw hvu').mp hvEq
    exact hne ((hvu'.eq_iff hw').mpr (snd_eq_of_mem_uniquePairs hp htop hu' huEq))

theorem pairsIdentifiers_topDown (hdiscerns : (ofTrees src dst).Discerns) (minHeight : Nat) :
    (ofTrees src dst).PairsIdentifiers ((ofTrees src dst).topDown minHeight) := by
  have hp := sound_ofTrees src dst
  have hmin :
      (ofTrees src dst).topDown minHeight = (ofTrees src dst).topDown (max minHeight 1) := by
    simp [topDown, heights]
  rw [hmin]
  refine rounds_induction (Nat.le_max_right _ _) (.empty _) fun k hk h => ?_
  have hlinked := linkedDownTo_topDown hp (Nat.le_add_left 1 k)
  refine h.of_linksBelow (fun _ => equal_of_mem_uniquePairs) (fun top htop => ?_)
    (dstOf?_heightRound_iff hp hlinked (Nat.lt_succ_self k))
  exact kind?_ne_token_of_mem_uniquePairs hl hdiscerns h htop

end TopDown

/-! ## The bottom-up phase -/

/-- What gets a partner by the nodes below it is neither an identifier nor a token. -/
theorem kind?_ne_of_partner? {threshold : Float} (hl : p.OfLowered) (h : p.PairsIdentifiers m)
    (hpartner : p.partner? threshold m s = some d) :
    p.src.kind? s ≠ some .identifierWrapper ∧ p.src.kind? s ≠ some .tokenLeaf := by
  obtain ⟨hfree, -, ⟨rfl, -⟩ | ⟨-, hinner, shared, hmem⟩⟩ := partner?_cases hpartner
  · rw [hl.src.kind_root]
    exact ⟨nofun, nofun⟩
  refine ⟨fun hkind => ?_, fun hkind => ?_⟩
  · -- the only descendant is the token, and it is unpaired as the identifier is
    obtain ⟨tok, hw⟩ := hl.src.exists_token s hkind
    obtain ⟨-, rfl, hshared, -⟩ := p.mem_candidates.mp hmem
    have hbelow : p.src.descendants s = [tok] := by
      rw [Tree.descendants, Tree.preOrder_eq_cons (Tree.lt_size_of_kind? hkind), List.tail_cons,
        hw.children_identifier, Tree.visit_cons, hw.children_token]
      simp
    have hnone : m.dstOf? tok = none := by
      rw [← Mapping.hasSrc_eq_false_iff, ← h.hasSrc_eq hl hw]
      exact hfree
    simp [sharedBelow, partnersBelow, hbelow, hnone] at hshared
  · obtain ⟨w, hw⟩ := hl.src.exists_identifier s hkind
    exact hinner hw.children_token

theorem kind?_ne_token_of_mem_children {c : Nat} (hl : p.OfLowered)
    (hs : p.src.kind? s ≠ some .identifierWrapper) (hc : c ∈ p.src.children s) :
    p.src.kind? c ≠ some .tokenLeaf := by
  intro hkind
  obtain ⟨w, hw⟩ := hl.src.exists_identifier c hkind
  have hparent := Tree.mem_children.mp hc
  rw [hw.parent_token, Option.some.injEq] at hparent
  exact hs (hparent ▸ hw.kind_identifier)

namespace PairsIdentifiers

theorem linkSubtreesAll_equalChildren (hl : p.OfLowered) (h : p.PairsIdentifiers m)
    (hs : p.src.kind? s ≠ some .identifierWrapper) :
    p.PairsIdentifiers (p.linkSubtreesAll m (p.equalChildren m s d)) := by
  have hlinkable := p.linkable_equalChildren m s d
  refine h.of_linksBelow hlinkable.equal (fun top htop => ?_) (dstOf?_linkSubtreesAll_iff hlinkable)
  exact kind?_ne_token_of_mem_children hl hs (mem_equalChildren htop).1

/-- An identifier that is linked takes its token along. -/
theorem linkLone (hl : p.OfLowered) (h : p.PairsIdentifiers m) {c c' : Nat} (hfits : p.Fits c c')
    (htoken : p.src.kind? c ≠ some .tokenLeaf) : p.PairsIdentifiers (p.linkLone m (c, c')) := by
  by_cases hkind : p.src.kind? c = some .identifierWrapper
  · obtain ⟨tok, hw⟩ := hl.src.exists_token c hkind
    obtain ⟨tok', hw'⟩ := hl.dst_identifier hw hfits
    have hleaves : p.onlyLeaves c c' = [(tok, tok')] := by
      simp [onlyLeaves, hw.children_identifier, hw'.children_identifier, hw.children_token,
        hw'.children_token, sameType, hw.typeName_token, hw'.typeName_token]
    rw [MatchProblem.linkLone, hleaves]
    exact h.link_identifier hl hw hw'
  · refine Mapping.linkAll_induction (h.link_other hfits hkind htoken) fun m hm leaf hleaf => ?_
    obtain ⟨hchild, -, hnil, hleafFits⟩ := mem_onlyLeaves hleaf
    refine hm.link_other hleafFits (fun hwrapper => ?_)
      (kind?_ne_token_of_mem_children hl hkind hchild)
    -- a leaf is no identifier
    obtain ⟨tok, hw⟩ := hl.src.exists_token _ hwrapper
    rw [hw.children_identifier] at hnil
    cases hnil

theorem recover (hl : p.OfLowered) (h : p.PairsIdentifiers m)
    (hs : p.src.kind? s ≠ some .identifierWrapper) : p.PairsIdentifiers (p.recover m s d) := by
  refine List.foldlRecOn _ _ (h.linkSubtreesAll_equalChildren hl hs) fun m hm pair hpair => ?_
  obtain ⟨hchild, -, hfits⟩ := mem_loneChildren hpair
  exact hm.linkLone hl hfits (kind?_ne_token_of_mem_children hl hs (List.mem_filter.mp hchild).1)

theorem bottomUp (hl : p.OfLowered) (h : p.PairsIdentifiers m) (threshold : Float) :
    p.PairsIdentifiers (p.bottomUp threshold m) := by
  refine List.foldlRecOn _ _ h fun m hm s hs => ?_
  unfold settle
  split
  · next d hpartner =>
    obtain ⟨hwrapper, htoken⟩ := kind?_ne_of_partner? hl hm hpartner
    have hfits := (fits_of_partner? (Tree.mem_ids.mp (List.mem_reverse.mp hs)) hpartner).1
    exact (hm.link_other hfits hwrapper htoken).recover hl hwrapper
  · exact hm

end PairsIdentifiers

end MatchProblem

/-! ## A whole run -/

/-- **In lowered trees identifiers are paired together with their tokens.** -/
theorem pairsIdentifiers_matchTrees {src dst : Tree} (hl : (MatchProblem.ofTrees src dst).OfLowered)
    (hdigest : DigestsDiscern src dst) (options : MatchOptions) :
    (MatchProblem.ofTrees src dst).PairsIdentifiers (matchTrees options src dst) :=
  (MatchProblem.pairsIdentifiers_topDown hl (.ofTrees hdigest) options.minHeight).bottomUp hl
    options.threshold

end CallDelta

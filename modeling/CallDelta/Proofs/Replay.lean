import CallDelta.Proofs.Forest
import CallDelta.Proofs.MatchingLinks
import CallDelta.Proofs.ScriptActions
import CallDelta.Proofs.WalkOrder
import CallDelta.Tree.Growth

/-!
# Edit scripts turn the source into the destination

The script of a mapping is replayed on the source tree. One invariant is carried along
(`Forest.Shows`): some destination nodes are in their place, some source nodes are where they were,
and nothing else is there. Along the walk over the destination the first part grows
(`Forest.Grown`), and along the walk over the source the second part shrinks to nothing
(`Forest.Pruned`).

* `Forest.Grown.step`, `Forest.Pruned.step`: the actions at one node can be taken and carry the
  invariant
* `replay_ofMapping`: the whole script can be taken and ends in the destination tree
-/

namespace CallDelta

/-! ## Mappings -/

namespace Mapping

variable {m : Mapping} {s d d' : Nat}

/-- The pairs are of nodes of the two trees with the same type, and a root is paired with a root. -/
structure Respects (m : Mapping) (src dst : Tree) : Prop where
  inRange : ∀ s d, m.dstOf? s = some d → s < src.size ∧ d < dst.size
  typeName_eq : ∀ s d, m.dstOf? s = some d → src.typeName s = dst.typeName d
  root_iff : ∀ s d, m.dstOf? s = some d → (s = src.root ↔ d = dst.root)

theorem image_of_paired (h : m.srcOf? d = some s) : m.image d = .kept s := by
  rw [image, h]
  rfl

theorem image_of_unpaired (h : m.srcOf? d = none) : m.image d = .copy d := by
  rw [image, h]
  rfl

theorem image_eq_kept_iff : m.image d = .kept s ↔ m.srcOf? d = some s := by
  cases h : m.srcOf? d with
  | none => simp [image_of_unpaired h]
  | some s' => simp [image_of_paired h]

theorem image_injective (h : m.image d = m.image d') : d = d' := by
  cases hd : m.srcOf? d with
  | some s =>
    rw [image_of_paired hd] at h
    exact srcOf?_injective hd (image_eq_kept_iff.mp h.symm)
  | none =>
    rw [image_of_unpaired hd] at h
    cases hd' : m.srcOf? d' with
    | some s =>
      rw [image_of_paired hd'] at h
      cases h
    | none =>
      rw [image_of_unpaired hd'] at h
      exact Piece.copy.inj h

theorem hasSrc_of_image (h : m.image d = .kept s) : m.hasSrc s = true :=
  hasSrc_iff.mpr ⟨d, dstOf?_eq_some_iff.mpr (image_eq_kept_iff.mp h)⟩

/-- A root is paired with a root, so a pair has two parents or none. -/
theorem Respects.parent?_eq_none_iff {src dst : Tree} (hm : m.Respects src dst)
    (h : m.dstOf? s = some d) : src.parent? s = none ↔ dst.parent? d = none := by
  obtain ⟨hs, hd⟩ := hm.inRange s d h
  constructor
  · intro hp
    rw [(hm.root_iff s d h).mp (Tree.eq_root_of_parent?_none hs hp), Tree.parent?_root]
  · intro hp
    rw [(hm.root_iff s d h).mpr (Tree.eq_root_of_parent?_none hd hp), Tree.parent?_root]

end Mapping

namespace Forest

variable {trees : TreePair} {m : Mapping} {settled waiting : Nat → Prop} {F G : Forest}
  {n : Piece} {e : Placement} {nodes done rest : List Nat} {d i s x : Nat}

/-! ## Half-way -/

/-- Destination nodes that are `settled` are in their place, source nodes that are `waiting` are
where they were at the start, and nothing else is there. -/
structure Shows (F : Forest) (trees : TreePair) (m : Mapping) (settled waiting : Nat → Prop) :
    Prop where
  of_settled : ∀ d, settled d → F (m.image d) = some (trees.dst.placement m.image d)
  of_waiting : ∀ s, waiting s → F (.kept s) = some (trees.src.placement .kept s)
  only : ∀ n e, F n = some e → (∃ d, settled d ∧ n = m.image d) ∨ ∃ s, waiting s ∧ n = .kept s
  apart : ∀ d s, settled d → waiting s → m.image d ≠ .kept s

/-- Copies of unpaired nodes are planted in the place of the nodes they stand for. -/
theorem plant_image (hfree : ∀ i ∈ nodes, m.srcOf? i = none)
    (hinner : ∀ i ∈ nodes, i ≠ x → ∀ p, trees.dst.parent? i = some p → m.srcOf? p = none)
    (hi : i ∈ nodes) :
    F.plant trees.dst nodes x ((trees.dst.parent? x).map m.image) (m.image i) =
      some (trees.dst.placement m.image i) := by
  rw [Mapping.image_of_unpaired (hfree i hi)]
  refine (if_pos hi).trans (congrArg some ?_)
  by_cases hix : i = x
  · rw [if_pos hix, hix]
    rfl
  · rw [if_neg hix, Tree.placement, Tree.placement]
    cases hp : trees.dst.parent? i with
    | none => rfl
    | some p =>
      rw [Option.map_some, Option.map_some, Mapping.image_of_unpaired (hinner i hi hix p hp)]

namespace Shows

theorem congr {settled' waiting' : Nat → Prop} (h : F.Shows trees m settled waiting)
    (hsettled : ∀ d, settled' d ↔ settled d) (hwaiting : ∀ s, waiting' s ↔ waiting s) :
    F.Shows trees m settled' waiting' := by
  have he₁ : settled' = settled := funext fun d => propext (hsettled d)
  have he₂ : waiting' = waiting := funext fun s => propext (hwaiting s)
  rw [he₁, he₂]
  exact h

/-- Copies of unpaired nodes are settled at once. -/
theorem plant (h : F.Shows trees m settled waiting) (hfree : ∀ i ∈ nodes, m.srcOf? i = none)
    (hinner : ∀ i ∈ nodes, i ≠ x → ∀ p, trees.dst.parent? i = some p → m.srcOf? p = none) :
    (F.plant trees.dst nodes x ((trees.dst.parent? x).map m.image)).Shows trees m
      (fun d => settled d ∨ d ∈ nodes) waiting := by
  have hold : ∀ n, (∀ i ∈ nodes, n ≠ m.image i) →
      F.plant trees.dst nodes x ((trees.dst.parent? x).map m.image) n = F n := by
    intro n hn
    refine plant_of_not_mem fun i hi => ?_
    rw [← Mapping.image_of_unpaired (hfree i hi)]
    exact hn i hi
  refine ⟨fun d hd => ?_, fun s hs => ?_, fun n e hn => ?_, fun d s hd hs => ?_⟩
  · by_cases hmem : d ∈ nodes
    · exact plant_image hfree hinner hmem
    · rw [hold]
      · exact h.of_settled d (hd.resolve_right hmem)
      · intro i hi he
        rw [Mapping.image_injective he] at hmem
        exact hmem hi
  · exact h.of_waiting s hs
  · by_cases hmem : ∃ i ∈ nodes, n = m.image i
    · obtain ⟨i, hi, rfl⟩ := hmem
      exact Or.inl ⟨i, Or.inr hi, rfl⟩
    · rw [hold n fun i hi he => hmem ⟨i, hi, he⟩] at hn
      rcases h.only n e hn with ⟨d, hd, rfl⟩ | hwait
      · exact Or.inl ⟨d, Or.inl hd, rfl⟩
      · exact Or.inr hwait
  · rcases hd with hd | hd
    · exact h.apart d s hd hs
    · rw [Mapping.image_of_unpaired (hfree d hd)]
      exact Piece.noConfusion

/-- A waiting node is settled by giving it the place of its partner. -/
theorem settle (h : F.Shows trees m settled waiting) (hx : m.srcOf? x = some s) (hs : waiting s)
    (hplaced : G (.kept s) = some (trees.dst.placement m.image x))
    (hframe : ∀ n, n ≠ .kept s → G n = F n) :
    G.Shows trees m (fun d => settled d ∨ d = x) (fun s' => waiting s' ∧ s' ≠ s) := by
  have himage := Mapping.image_of_paired hx
  refine ⟨?_, ?_, ?_, ?_⟩
  · rintro d (hd | rfl)
    · rw [hframe _ (h.apart d s hd hs)]
      exact h.of_settled d hd
    · rw [himage]
      exact hplaced
  · rintro s' ⟨hs', hne⟩
    rw [hframe _ fun he => hne (Piece.kept.inj he)]
    exact h.of_waiting s' hs'
  · intro n e hn
    by_cases hns : n = .kept s
    · exact Or.inl ⟨x, Or.inr rfl, hns.trans himage.symm⟩
    · rw [hframe n hns] at hn
      rcases h.only n e hn with ⟨d, hd, rfl⟩ | ⟨s', hs', rfl⟩
      · exact Or.inl ⟨d, Or.inl hd, rfl⟩
      · exact Or.inr ⟨s', ⟨hs', fun he => hns (congrArg _ he)⟩, rfl⟩
  · rintro d s' (hd | rfl) ⟨hs', hne⟩
    · exact h.apart d s' hd hs'
    · rw [himage]
      intro he
      exact hne (Piece.kept.inj he).symm

/-- Unpaired nodes that are taken out no longer wait. -/
theorem uproot (h : F.Shows trees m settled waiting) (hfree : ∀ i ∈ nodes, m.hasSrc i = false) :
    (F.uproot nodes).Shows trees m settled (fun s => waiting s ∧ s ∉ nodes) := by
  refine ⟨?_, ?_, ?_, ?_⟩
  · intro d hd
    rw [uproot_of_not_mem]
    · exact h.of_settled d hd
    · intro i hi he
      have := Mapping.hasSrc_of_image he
      rw [hfree i hi] at this
      cases this
  · rintro s ⟨hs, hout⟩
    rw [uproot_of_not_mem]
    · exact h.of_waiting s hs
    · rintro i hi he
      cases he
      exact hout hi
  · intro n e hn
    have hout : ∀ i ∈ nodes, n ≠ .kept i := by
      rintro i hi rfl
      rw [uproot_kept_of_mem hi] at hn
      cases hn
    rw [uproot_of_not_mem hout] at hn
    rcases h.only n e hn with hsettled | ⟨s, hs, rfl⟩
    · exact Or.inl hsettled
    · exact Or.inr ⟨s, ⟨hs, fun hmem => hout s hmem rfl⟩, rfl⟩
  · rintro d s hd ⟨hs, -⟩
    exact h.apart d s hd hs

/-- Only waiting nodes hang below an unpaired source node. -/
theorem waiting_of_parent (h : F.Shows trees m settled waiting) (hi : m.hasSrc i = false)
    (hn : F n = some e) (hp : e.parent = some (.kept i)) :
    ∃ s, waiting s ∧ n = .kept s ∧ trees.src.parent? s = some i := by
  rcases h.only n e hn with ⟨d, hd, rfl⟩ | ⟨s, hs, rfl⟩
  · -- the parent of a settled node is an image, and so it is paired or a copy
    rw [h.of_settled d hd] at hn
    cases hn
    obtain ⟨p, -, hp⟩ := Option.map_eq_some_iff.mp hp
    rw [Mapping.hasSrc_of_image hp] at hi
    cases hi
  · rw [h.of_waiting s hs] at hn
    cases hn
    obtain ⟨j, hj, he⟩ := Option.map_eq_some_iff.mp hp
    cases he
    exact ⟨s, hs, rfl, hj⟩

end Shows

/-- Above a settled node there are only settled nodes, if parents are settled first. -/
theorem not_within_image
    (hplaced : ∀ d, settled d → F (m.image d) = some (trees.dst.placement m.image d))
    (hup : ∀ d, settled d → ∀ p, trees.dst.parent? d = some p → settled p)
    (hout : ∀ d, settled d → m.image d ≠ n) (hd : settled d) : ¬ F.Within n (m.image d) := by
  intro hwithin
  generalize hq : m.image d = q at hwithin
  induction hwithin generalizing d with
  | refl => exact hout d hd hq
  | step hn hp _ ih =>
    rw [← hq, hplaced d hd] at hn
    cases hn
    obtain ⟨p, hp, he⟩ := Option.map_eq_some_iff.mp hp
    exact ih (hup d hd p hp) he

/-! ## The walk over the destination -/

/-- A source node waits until its partner has been dealt with, and for ever if it has none. -/
def Waits (trees : TreePair) (m : Mapping) (done : List Nat) (s : Nat) : Prop :=
  s < trees.src.size ∧ ∀ d, m.dstOf? s = some d → ¬ trees.dst.SpokenFor m.hasDst done d

/-- The forest when the walk over the destination has dealt with the nodes of `done`. -/
def Grown (F : Forest) (trees : TreePair) (m : Mapping) (done : List Nat) : Prop :=
  F.Shows trees m (trees.dst.SpokenFor m.hasDst done) (Waits trees m done)

theorem waits_concat_iff_of_unpaired
    (hfree : ∀ d, trees.dst.SpeaksFor m.hasDst x d → m.srcOf? d = none) :
    Waits trees m (done ++ [x]) s ↔ Waits trees m done s := by
  refine and_congr_right fun _ => forall_congr' fun d => imp_congr_right fun hsd => not_congr ?_
  rw [Tree.spokenFor_concat]
  refine or_iff_left fun hspeaks => ?_
  rw [Mapping.dstOf?_eq_some_iff, hfree d hspeaks] at hsd
  cases hsd

theorem waits_concat_iff_of_paired {s' : Nat} (hsx : m.dstOf? s = some x)
    (hspeaks : ∀ d, trees.dst.SpeaksFor m.hasDst x d ↔ d = x) :
    Waits trees m (done ++ [x]) s' ↔ Waits trees m done s' ∧ s' ≠ s := by
  constructor
  · rintro ⟨hs', hall⟩
    refine ⟨⟨hs', fun d hd hspoken => hall d hd (Tree.spokenFor_concat.mpr (Or.inl hspoken))⟩, ?_⟩
    rintro rfl
    exact hall x hsx (Tree.spokenFor_concat.mpr (Or.inr ((hspeaks x).mpr rfl)))
  · rintro ⟨⟨hs', hall⟩, hne⟩
    refine ⟨hs', fun d hd hspoken => ?_⟩
    rcases Tree.spokenFor_concat.mp hspoken with hspoken | hspoken
    · exact hall d hd hspoken
    · rw [(hspeaks d).mp hspoken] at hd
      exact hne (Mapping.dstOf?_injective hd hsx)

theorem grown_ofTree (trees : TreePair) (m : Mapping) : (ofTree trees.src).Grown trees m [] := by
  have hcopies := ofTree_copies trees.src
  refine ⟨?_, ?_, ?_, ?_⟩
  · intro d hd
    exact absurd hd Tree.not_spokenFor_nil
  · rintro s ⟨hs, -⟩
    exact hcopies.placed s hs
  · intro n e hn
    obtain ⟨s, hs, rfl⟩ := hcopies.only n e hn
    exact Or.inr ⟨s, ⟨hs, fun _ _ => Tree.not_spokenFor_nil⟩, rfl⟩
  · intro d s hd
    exact absurd hd Tree.not_spokenFor_nil

/-- A node that speaks for nobody changes nothing. -/
theorem Grown.skip (h : F.Grown trees m done)
    (hx : ∀ d, ¬ trees.dst.SpeaksFor m.hasDst x d) : F.Grown trees m (done ++ [x]) := by
  refine h.congr (fun d => ?_) fun s => waits_concat_iff_of_unpaired fun d hd => absurd hd (hx d)
  rw [Tree.spokenFor_concat]
  exact or_iff_left (hx d)

/-- The nodes an unpaired node speaks for can be planted there. -/
theorem Grown.plant (hcut : trees.dst.breadthFirst = done ++ x :: rest) (h : F.Grown trees m done)
    (hx : m.hasDst x = false)
    (hnodes : ∀ i, i ∈ nodes ↔ trees.dst.SpeaksFor m.hasDst x i) :
    F.CanPlant m nodes (trees.dst.parent? x) ∧
      (F.plant trees.dst nodes x ((trees.dst.parent? x).map m.image)).Grown trees m
        (done ++ [x]) := by
  obtain ⟨hlt, hnew, hdone⟩ := Tree.next_of_cut trees.dst.breadthFirst_perm_ids hcut
  have hfree : ∀ i ∈ nodes, m.srcOf? i = none := fun i hi =>
    Mapping.hasDst_eq_false_iff.mp (((hnodes i).mp hi).paired_eq_false hlt hx)
  have hinner : ∀ i ∈ nodes, i ≠ x → ∀ p, trees.dst.parent? i = some p → m.srcOf? p = none := by
    intro i hi hne p hp
    rcases (hnodes i).mp hi with ⟨-, he⟩ | ⟨htop, hxi⟩
    · exact absurd he hne
    · exact hfree p ((hnodes p).mpr (Or.inr ⟨htop, hxi.parent hp hne⟩))
  refine ⟨⟨fun i hi => ?_,
    fun px hpx => ⟨_, h.of_settled px (Tree.spokenFor_parent_of_breadthFirst hcut hpx)⟩⟩,
    (Shows.plant h hfree hinner).congr ?_ ?_⟩
  · -- a copy that is there already is of a node that has been spoken for
    refine Option.eq_none_iff_forall_ne_some.mpr fun e he => ?_
    rcases h.only _ e he with ⟨d, hd, himage⟩ | ⟨s, -, himage⟩
    · rw [← Mapping.image_of_unpaired (hfree i hi)] at himage
      rw [← Mapping.image_injective himage] at hd
      exact Tree.not_spokenFor hlt hdone hnew ((hnodes i).mp hi) hd
    · cases himage
  · intro d
    rw [Tree.spokenFor_concat, hnodes]
  · intro s
    exact waits_concat_iff_of_unpaired fun d hd => hfree d ((hnodes d).mpr hd)

/-- After the update the label is that of the destination. -/
theorem replay_update (hs : F (.kept s) = some e) (hlabel : e.label = trees.src.label? s) :
    F.Safe trees m (EditScript.update trees.src trees.dst s x) ∧
      F.replay trees m (EditScript.update trees.src trees.dst s x) (.kept s) =
        some { e with label := trees.dst.label? x } ∧
      ∀ n, n ≠ .kept s →
        F.replay trees m (EditScript.update trees.src trees.dst s x) n = F n := by
  by_cases hsame : trees.src.label? s = trees.dst.label? x
  · have hnil : EditScript.update trees.src trees.dst s x = [] := by
      simp [EditScript.update, hsame]
    rw [hnil, ← hsame, ← hlabel]
    exact ⟨trivial, hs, fun _ _ => rfl⟩
  · have hone : EditScript.update trees.src trees.dst s x =
        [.updateNode s (trees.dst.label? x)] := by
      simp [EditScript.update, hsame]
    rw [hone]
    exact ⟨safe_singleton.mpr ⟨e, hs⟩, alter_self hs, fun n hn => alter_of_ne hn⟩

/-- After the relocation the parent is the image of the parent in the destination. -/
theorem replay_relocation (hs : F (.kept s) = some e)
    (hparent : e.parent = (trees.src.parent? s).map .kept)
    (hroots : trees.src.parent? s = none ↔ trees.dst.parent? x = none)
    (hsafe : ∀ px, trees.dst.parent? x = some px →
      F.Has (m.image px) ∧ ¬ F.Within (.kept s) (m.image px)) :
    F.Safe trees m (EditScript.relocation trees.src trees.dst m s x) ∧
      F.replay trees m (EditScript.relocation trees.src trees.dst m s x) (.kept s) =
        some { e with parent := (trees.dst.parent? x).map m.image } ∧
      ∀ n, n ≠ .kept s →
        F.replay trees m (EditScript.relocation trees.src trees.dst m s x) n = F n := by
  unfold EditScript.relocation
  cases hx : trees.dst.parent? x with
  | none =>
    rw [hroots.mpr hx, Option.map_none] at hparent
    rw [hroots.mpr hx]
    refine ⟨trivial, hs.trans (congrArg some ?_), fun _ _ => rfl⟩
    rw [Option.map_none, ← hparent]
  | some px =>
    cases hps : trees.src.parent? s with
    | none =>
      rw [hroots.mp hps] at hx
      cases hx
    | some ps =>
      rw [hps] at hparent
      by_cases hkeep : m.dstOf? ps = some px
      · -- the node hangs below the partner of its new parent already
        have himage := Mapping.image_of_paired (Mapping.dstOf?_eq_some_iff.mp hkeep)
        simp only [hkeep, bne_self_eq_false, Bool.false_eq_true, if_false]
        refine ⟨trivial, hs.trans (congrArg some ?_), fun _ _ => rfl⟩
        rw [Option.map_some, himage, ← Option.map_some, ← hparent]
      · obtain ⟨hhas, hcycle⟩ := hsafe px hx
        simp only [bne_iff_ne, ne_eq, hkeep, not_false_eq_true, if_true]
        exact ⟨safe_singleton.mpr ⟨⟨e, hs⟩, hhas, hcycle⟩, alter_self hs,
          fun n hn => alter_of_ne hn⟩

/-- Whatever becomes of a waiting node, it may hang below the parent of the next node. -/
theorem Grown.can_move (hcut : trees.dst.breadthFirst = done ++ x :: rest)
    (h : F.Grown trees m done) (hs : Waits trees m done s)
    (hframe : ∀ n, n ≠ .kept s → G n = F n) {px : Nat} (hpx : trees.dst.parent? x = some px) :
    G.Has (m.image px) ∧ ¬ G.Within (.kept s) (m.image px) := by
  have hout : ∀ d, trees.dst.SpokenFor m.hasDst done d → m.image d ≠ .kept s :=
    fun d hd => h.apart d s hd hs
  have hplaced : ∀ d, trees.dst.SpokenFor m.hasDst done d →
      G (m.image d) = some (trees.dst.placement m.image d) := by
    intro d hd
    rw [hframe _ (hout d hd)]
    exact h.of_settled d hd
  have hspoken : trees.dst.SpokenFor m.hasDst done px :=
    Tree.spokenFor_parent_of_breadthFirst hcut hpx
  refine ⟨⟨_, hplaced px hspoken⟩, not_within_image hplaced ?_ hout hspoken⟩
  intro d hd p hp
  exact hd.parent (fun y hy q hq => Tree.parent_mem_of_mem_breadthFirst hcut hy hq) hp

/-- The actions at a paired node settle it. -/
theorem Grown.settle (hm : m.Respects trees.src trees.dst)
    (hcut : trees.dst.breadthFirst = done ++ x :: rest) (h : F.Grown trees m done)
    (hx : m.srcOf? x = some s) :
    F.Safe trees m (EditScript.update trees.src trees.dst s x ++
        EditScript.relocation trees.src trees.dst m s x) ∧
      (F.replay trees m (EditScript.update trees.src trees.dst s x ++
        EditScript.relocation trees.src trees.dst m s x)).Grown trees m (done ++ [x]) := by
  obtain ⟨hlt, hnew, hdone⟩ := Tree.next_of_cut trees.dst.breadthFirst_perm_ids hcut
  have hsx := Mapping.dstOf?_eq_some_iff.mpr hx
  have hspeaks : ∀ d, trees.dst.SpeaksFor m.hasDst x d ↔ d = x := fun d =>
    Tree.speaksFor_iff_of_not_free
      (Tree.isFree_eq_false_of_paired hlt (Mapping.hasDst_iff.mpr ⟨s, hx⟩))
  have hwait : Waits trees m done s := by
    refine ⟨(hm.inRange s x hsx).1, fun d hd => ?_⟩
    rw [hsx] at hd
    cases hd
    exact Tree.not_spokenFor hlt hdone hnew ((hspeaks x).mpr rfl)
  obtain ⟨hsafe₁, hat₁, hframe₁⟩ := replay_update (m := m) (x := x) (h.of_waiting s hwait) rfl
  rw [safe_append, replay_append]
  -- the forest between the update and the move
  generalize F.replay trees m (EditScript.update trees.src trees.dst s x) = G at hat₁ hframe₁ ⊢
  obtain ⟨hsafe₂, hat₂, hframe₂⟩ := replay_relocation hat₁ rfl (hm.parent?_eq_none_iff hsx)
    fun px hpx => h.can_move hcut hwait hframe₁ hpx
  refine ⟨⟨hsafe₁, hsafe₂⟩,
    (Shows.settle h hx hwait (hat₂.trans (congrArg some ?_)) ?_).congr ?_ ?_⟩
  · simp only [Tree.placement, hm.typeName_eq s x hsx]
  · intro n hn
    exact (hframe₂ n hn).trans (hframe₁ n hn)
  · intro d
    rw [Tree.spokenFor_concat, hspeaks]
  · intro s'
    exact waits_concat_iff_of_paired hsx hspeaks

/-- **The actions at a destination node can be taken and carry the invariant on.** -/
theorem Grown.step (hm : m.Respects trees.src trees.dst)
    (hcut : trees.dst.breadthFirst = done ++ x :: rest) (h : F.Grown trees m done) :
    F.Safe trees m (EditScript.atDestination trees.src trees.dst m x) ∧
      (F.replay trees m (EditScript.atDestination trees.src trees.dst m x)).Grown trees m
        (done ++ [x]) := by
  cases hx : m.srcOf? x with
  | some s =>
    rw [EditScript.atDestination_of_paired hx]
    exact h.settle hm hcut hx
  | none =>
    have hfree := Mapping.hasDst_eq_false_iff.mpr hx
    have hlt := (Tree.next_of_cut trees.dst.breadthFirst_perm_ids hcut).1
    rw [EditScript.atDestination_of_unpaired hx]
    cases hf : trees.dst.isFree m.hasDst x with
    | false =>
      have hnodes : ∀ i, i ∈ [x] ↔ trees.dst.SpeaksFor m.hasDst x i := fun i =>
        List.mem_singleton.trans (Tree.speaksFor_iff_of_not_free hf).symm
      obtain ⟨hcan, hgrown⟩ := h.plant hcut hfree hnodes
      rw [EditScript.insertion_of_not_free hf]
      exact ⟨safe_singleton.mpr hcan, hgrown⟩
    | true =>
      cases hb : trees.dst.belowFree m.hasDst x with
      | false =>
        have hnodes : ∀ i, i ∈ trees.dst.preOrder x ↔ trees.dst.SpeaksFor m.hasDst x i := by
          intro i
          rw [Tree.mem_preOrder_iff, Tree.speaksFor_iff_of_isTop ⟨hf, hb⟩]
          exact and_iff_right hlt
        obtain ⟨hcan, hgrown⟩ := h.plant hcut hfree hnodes
        rw [EditScript.insertion_of_isTop ⟨hf, hb⟩]
        exact ⟨safe_singleton.mpr hcan, hgrown⟩
      | true =>
        rw [EditScript.insertion_of_belowFree hf hb]
        exact ⟨trivial, h.skip fun d => Tree.not_speaksFor_of_belowFree hf hb⟩

/-! ## The walk over the source -/

/-- The forest when the walk over the source has dealt with the nodes of `done`. -/
def Pruned (F : Forest) (trees : TreePair) (m : Mapping) (done : List Nat) : Prop :=
  F.Shows trees m (· < trees.dst.size) fun s =>
    s < trees.src.size ∧ m.hasSrc s = false ∧ ¬ trees.src.SpokenFor m.hasSrc done s

/-- When the destination is complete, the source nodes that wait are those without a partner. -/
theorem Grown.pruned (hm : m.Respects trees.src trees.dst)
    (h : F.Grown trees m trees.dst.breadthFirst) : F.Pruned trees m [] := by
  have hall : ∀ d, trees.dst.SpokenFor m.hasDst trees.dst.breadthFirst d ↔ d < trees.dst.size :=
    fun d => Tree.spokenFor_iff_lt_size trees.dst.breadthFirst_perm_ids
  refine h.congr (fun d => (hall d).symm) fun s => and_congr_right fun _ => ?_
  constructor
  · rintro ⟨hfree, -⟩ d hd
    rw [Mapping.hasSrc_eq_false_iff.mp hfree] at hd
    cases hd
  · intro hnone
    refine ⟨Mapping.hasSrc_eq_false_iff.mpr ?_, Tree.not_spokenFor_nil⟩
    refine Option.eq_none_iff_forall_ne_some.mpr fun d hd => ?_
    exact hnone d hd ((hall d).mpr (hm.inRange s d hd).2)

/-- A node that speaks for no unpaired node changes nothing. -/
theorem Pruned.skip (h : F.Pruned trees m done)
    (hx : ∀ s, m.hasSrc s = false → ¬ trees.src.SpeaksFor m.hasSrc x s) :
    F.Pruned trees m (done ++ [x]) := by
  refine h.congr (fun _ => Iff.rfl) fun s => and_congr_right fun _ => and_congr_right fun hs => ?_
  rw [Tree.spokenFor_concat]
  exact not_congr (or_iff_left (hx s hs))

theorem Pruned.uproot (h : F.Pruned trees m done) (hlt : x < trees.src.size)
    (hx : m.hasSrc x = false) (hnodes : ∀ i, i ∈ nodes ↔ trees.src.SpeaksFor m.hasSrc x i) :
    (F.uproot nodes).Pruned trees m (done ++ [x]) := by
  have hfree : ∀ i ∈ nodes, m.hasSrc i = false := fun i hi =>
    ((hnodes i).mp hi).paired_eq_false hlt hx
  refine (Shows.uproot h hfree).congr (fun _ => Iff.rfl) fun s => ?_
  rw [Tree.spokenFor_concat, hnodes, not_or, and_assoc, and_assoc]

section next

variable (hcut : trees.src.postOrder trees.src.root = done ++ x :: rest)
include hcut

/-- What the next node speaks for is still in its place. -/
theorem Pruned.of_speaksFor (h : F.Pruned trees m done) (hx : m.hasSrc x = false)
    (hs : trees.src.SpeaksFor m.hasSrc x s) :
    F (.kept s) = some (trees.src.placement .kept s) := by
  obtain ⟨hlt, hnew, hdone⟩ := Tree.next_of_cut trees.src.postOrder_root_perm_ids hcut
  exact h.of_waiting s ⟨hs.within.lt_size hlt, hs.paired_eq_false hlt hx,
    Tree.not_spokenFor hlt hdone hnew hs⟩

/-- A node whose subtree is not free has lost all its children when its turn comes. -/
theorem Pruned.allows_deleteNode (h : F.Pruned trees m done) (hx : m.hasSrc x = false)
    (hf : trees.src.isFree m.hasSrc x = false) : F.Allows trees m (.deleteNode x) := by
  refine ⟨⟨_, h.of_speaksFor hcut hx (Or.inl ⟨hf, rfl⟩)⟩, fun n e hn hp => ?_⟩
  obtain ⟨c, ⟨-, -, hc⟩, -, hparent⟩ := h.waiting_of_parent hx hn hp
  -- each child speaks for itself, and it has had its turn
  refine hc ⟨c, Tree.child_mem_of_postOrder hcut hparent, ?_⟩
  cases hfc : trees.src.isFree m.hasSrc c with
  | false => exact Or.inl ⟨hfc, rfl⟩
  | true => exact Or.inr ⟨Tree.isTop_of_parent_not_free hfc hparent hf, .refl⟩

/-- A free subtree is still as it was when the turn of its top comes. -/
theorem Pruned.allows_deleteTree (h : F.Pruned trees m done)
    (htop : trees.src.IsTop m.hasSrc x) : F.Allows trees m (.deleteTree x) := by
  obtain ⟨hlt, -, -⟩ := Tree.next_of_cut trees.src.postOrder_root_perm_ids hcut
  have hx := Tree.paired_eq_false_of_isFree hlt htop.1
  have hfree : ∀ i, trees.src.Within x i → m.hasSrc i = false := fun i hi =>
    (Tree.isFree_iff hlt).mp htop.1 i hi
  refine ⟨⟨_, h.of_speaksFor hcut hx (Or.inr ⟨htop, .refl⟩)⟩, fun n => ⟨fun hn => ?_, ?_⟩, ?_⟩
  · -- nothing but waiting nodes hangs below an unpaired node, so nothing has come in
    induction hn with
    | refl => exact ⟨x, Tree.mem_preOrder_self hlt, rfl⟩
    | step hn hp _ ih =>
      obtain ⟨i, hi, rfl⟩ := ih
      have hxi := (Tree.mem_preOrder_iff.mp hi).2
      obtain ⟨s, -, rfl, hparent⟩ := h.waiting_of_parent (hfree i hxi) hn hp
      exact ⟨s, Tree.mem_preOrder_iff.mpr ⟨hlt, .step hparent hxi⟩, rfl⟩
  · -- and `x` speaks for the whole subtree, so nothing has gone out
    rintro ⟨i, hi, rfl⟩
    have hxi := (Tree.mem_preOrder_iff.mp hi).2
    clear hi
    induction hxi with
    | refl => exact .refl
    | @step i p hparent hxp ih =>
      have hplaced := h.of_speaksFor hcut hx (Or.inr ⟨htop, hxp.trans (.of_parent? hparent)⟩)
      refine .step hplaced ?_ ih
      rw [Tree.placement, hparent]
      rfl
  · intro i hi
    exact hfree i (Tree.mem_preOrder_iff.mp hi).2

/-- **The actions at a source node can be taken and carry the invariant on.** -/
theorem Pruned.step (h : F.Pruned trees m done) :
    F.Safe trees m (EditScript.atSource trees.src m x) ∧
      (F.replay trees m (EditScript.atSource trees.src m x)).Pruned trees m (done ++ [x]) := by
  have hlt := (Tree.next_of_cut trees.src.postOrder_root_perm_ids hcut).1
  cases hx : m.hasSrc x with
  | true =>
    rw [EditScript.atSource_of_paired hx]
    refine ⟨trivial, h.skip fun s hs hspeaks => ?_⟩
    rw [Tree.speaksFor_iff_of_not_free (Tree.isFree_eq_false_of_paired hlt hx)] at hspeaks
    rw [hspeaks, hx] at hs
    cases hs
  | false =>
    cases hf : trees.src.isFree m.hasSrc x with
    | false =>
      rw [EditScript.atSource_of_not_free hx hf]
      refine ⟨safe_singleton.mpr (h.allows_deleteNode hcut hx hf), h.uproot hlt hx fun i => ?_⟩
      exact List.mem_singleton.trans (Tree.speaksFor_iff_of_not_free hf).symm
    | true =>
      cases hb : trees.src.belowFree m.hasSrc x with
      | false =>
        rw [EditScript.atSource_of_isTop hx ⟨hf, hb⟩]
        refine ⟨safe_singleton.mpr (h.allows_deleteTree hcut ⟨hf, hb⟩), h.uproot hlt hx fun i => ?_⟩
        rw [Tree.mem_preOrder_iff, Tree.speaksFor_iff_of_isTop ⟨hf, hb⟩]
        exact and_iff_right hlt
      | true =>
        rw [EditScript.atSource_of_belowFree hf hb]
        exact ⟨trivial, h.skip fun s _ => Tree.not_speaksFor_of_belowFree hf hb⟩

end next

/-- When both walks are over, the forest is the destination tree. -/
theorem Pruned.copies (h : F.Pruned trees m (trees.src.postOrder trees.src.root)) :
    F.Copies trees.dst m.image := by
  refine ⟨fun i j _ _ he => Mapping.image_injective he, h.of_settled, fun n e hn => ?_⟩
  rcases h.only n e hn with hsettled | ⟨s, ⟨hs, -, hleft⟩, -⟩
  · exact hsettled
  · exact absurd ((Tree.spokenFor_iff_lt_size trees.src.postOrder_root_perm_ids).mpr hs) hleft

/-- The whole script can be taken, and it ends in the destination tree. -/
theorem replay_script (trees : TreePair) (hm : m.Respects trees.src trees.dst) :
    (ofTree trees.src).Safe trees m (EditScript.ofMapping trees.src trees.dst m) ∧
      ((ofTree trees.src).replay trees m (EditScript.ofMapping trees.src trees.dst m)).Copies
        trees.dst m.image := by
  obtain ⟨hsafe₁, hgrown⟩ := replay_flatMap
    (fun done x rest F hcut h => Grown.step hm hcut h) (grown_ofTree trees m)
  obtain ⟨hsafe₂, hpruned⟩ := replay_flatMap
    (fun done x rest F hcut h => Pruned.step hcut h) (hgrown.pruned hm)
  rw [EditScript.ofMapping_eq, safe_append, replay_append]
  exact ⟨⟨hsafe₁, hsafe₂⟩, hpruned.copies⟩

end Forest

/-- **The script of a mapping turns the source into the destination.** No action fails, the forest
is well formed all the time, and in the end it is the destination up to the order of siblings. The
mapping may be any that pairs nodes of one type and no root with another node. The matching finds
such a mapping if the type of a root is not found elsewhere. -/
theorem replay_ofMapping (src dst : Tree) :
    (∀ m : Mapping, m.Respects src dst →
      (Forest.ofTree src).Safe ⟨src, dst⟩ m (EditScript.ofMapping src dst m) ∧
        (∀ done, done <+: EditScript.ofMapping src dst m →
          ((Forest.ofTree src).replay ⟨src, dst⟩ m done).WellFormed) ∧
        ((Forest.ofTree src).replay ⟨src, dst⟩ m (EditScript.ofMapping src dst m)).Copies dst
          m.image) ∧
    ∀ options : MatchOptions,
      (∀ d, d < dst.size → dst.typeName d = src.typeName src.root → d = dst.root) →
      (∀ s, s < src.size → src.typeName s = dst.typeName dst.root → s = src.root) →
      (matchTrees options src dst).Respects src dst := by
  constructor
  · intro m hm
    obtain ⟨hsafe, hcopies⟩ := Forest.replay_script ⟨src, dst⟩ hm
    refine ⟨hsafe, fun done hdone => ?_, hcopies⟩
    exact (Forest.ofTree_copies src).wellFormed.replay hsafe hdone
  · intro options hdst hsrc
    refine ⟨?_, ?_, ?_⟩
    · intro s d hsd
      have hfit := MatchProblem.fits_of_dstOf?_matchTrees hsd
      exact ⟨hfit.src_lt, hfit.dst_lt⟩
    · intro s d hsd
      exact (MatchProblem.fits_of_dstOf?_matchTrees hsd).typeName_eq
    · intro s d hsd
      have hfit := MatchProblem.fits_of_dstOf?_matchTrees hsd
      constructor
      · rintro rfl
        exact hdst d hfit.dst_lt hfit.typeName_eq.symm
      · rintro rfl
        exact hsrc s hfit.src_lt hfit.typeName_eq

/-- A rose tree whose nodes have types and nothing else. -/
def typeRose (typeName : String) (children : List (Rose NodeData)) : Rose NodeData :=
  .node { kind := .other, typeName } children

def loopAroundBranch : Tree :=
  .ofRose (typeRose "block"
    [typeRose "loop" [typeRose "branch" []], typeRose "call" [typeRose "token" []]])

def branchAroundLoop : Tree :=
  .ofRose (typeRose "block" [typeRose "branch" [typeRose "loop" []], typeRose "return" []])

/-- The two blocks, the two loops and the two branches. -/
def interchange : Mapping := .ofPairs [(0, 0), (1, 2), (2, 1)]

/-- The branch is moved out of the loop before the loop is moved into the branch. -/
theorem replay_interchange :
    interchange.Respects loopAroundBranch branchAroundLoop ∧
      EditScript.ofMapping loopAroundBranch branchAroundLoop interchange =
        [.move 2 0 0, .insertTree 3 (some 0) 1, .move 1 1 0, .deleteTree 3] ∧
      (Forest.ofTree loopAroundBranch).Safe ⟨loopAroundBranch, branchAroundLoop⟩ interchange
        (EditScript.ofMapping loopAroundBranch branchAroundLoop interchange) ∧
      ((Forest.ofTree loopAroundBranch).replay ⟨loopAroundBranch, branchAroundLoop⟩ interchange
        (EditScript.ofMapping loopAroundBranch branchAroundLoop interchange)).Copies
          branchAroundLoop interchange.image ∧
      (matchTrees {} loopAroundBranch branchAroundLoop).Respects
        loopAroundBranch branchAroundLoop := by
  have hcheck : ∀ pair ∈ [(0, 0), (1, 2), (2, 1)],
      (pair.1 < loopAroundBranch.size ∧ pair.2 < branchAroundLoop.size) ∧
        loopAroundBranch.typeName pair.1 = branchAroundLoop.typeName pair.2 ∧
        (pair.1 = loopAroundBranch.root ↔ pair.2 = branchAroundLoop.root) := by
    decide +kernel
  have hpairs : ∀ s d, interchange.dstOf? s = some d → (s, d) ∈ [(0, 0), (1, 2), (2, 1)] := by
    intro s d hsd
    rcases Mapping.mem_of_dstOf?_linkAll hsd with h | h
    · rw [Mapping.dstOf?_empty] at h
      cases h
    · exact h
  have hrespects : interchange.Respects loopAroundBranch branchAroundLoop :=
    ⟨fun s d hsd => (hcheck _ (hpairs s d hsd)).1, fun s d hsd => (hcheck _ (hpairs s d hsd)).2.1,
      fun s d hsd => (hcheck _ (hpairs s d hsd)).2.2⟩
  obtain ⟨hreplay, hmatch⟩ := replay_ofMapping loopAroundBranch branchAroundLoop
  obtain ⟨hsafe, -, hcopies⟩ := hreplay interchange hrespects
  exact ⟨hrespects, by decide +kernel, hsafe, hcopies,
    hmatch {} (by decide +kernel) (by decide +kernel)⟩

end CallDelta

import CallDelta.Proofs.ScriptActions

/-!
# An edit script accounts for every node

A node of either tree is paired, or the script names it, or it lies in one subtree that the script
names as a whole. The two trees are walked in different orders but by one rule (`Tree.remarks`), so
that the counting is done once for a walk in any order, over the unique node that speaks for a node.

* `EditScript.AccountsForSide`: what it means that a script accounts for the nodes of one tree
* `EditScript.ofMapping_accounts`: an edit script accounts for the nodes of both trees, deletes
  last, updates and moves a node at most once, and gives the places of the nodes it inserts and
  moves
-/

namespace CallDelta

/-! ## Counting actions -/

namespace Action

/-- Whether an action of a kind is about a node. -/
def names (kind : ActionKind) (i : Nat) (a : Action) : Bool := a.kind == kind && a.node == i

/-- Whether an action of a kind is about a subtree with a node in it. -/
def spans (kind : ActionKind) (t : Tree) (i : Nat) (a : Action) : Bool :=
  a.kind == kind && (t.preOrder a.node).contains i

/-- Whether an action deletes. -/
def isDeletion (a : Action) : Bool := a.kind == .deleteNode || a.kind == .deleteTree

theorem names_eq_true_iff {kind : ActionKind} {i : Nat} {a : Action} :
    a.names kind i = true ↔ a.kind = kind ∧ a.node = i := by
  simp [names]

theorem spans_eq_true_iff {kind : ActionKind} {t : Tree} {i : Nat} {a : Action} :
    a.spans kind t i = true ↔ a.kind = kind ∧ a.node < t.size ∧ t.Within a.node i := by
  simp [spans, Tree.mem_preOrder_iff]

end Action

/-- In a walk without repetition only one node contributes to the count. -/
theorem countP_flatMap_eq {p : Action → Bool} {f : Nat → List Action} {y : Nat} :
    ∀ {walk : List Nat}, walk.Nodup → y ∈ walk →
      (∀ z ∈ walk, z ≠ y → ∀ a ∈ f z, ¬ p a = true) →
      (walk.flatMap f).countP p = (f y).countP p
  | [], _, hy, _ => by cases hy
  | z :: walk, hnd, hy, h => by
    obtain ⟨hz, hnd'⟩ := List.nodup_cons.mp hnd
    rw [List.flatMap_cons, List.countP_append]
    by_cases hzy : z = y
    · have hrest : (walk.flatMap f).countP p = 0 := by
        refine List.countP_eq_zero.mpr fun a ha => ?_
        obtain ⟨z', hz', ha⟩ := List.mem_flatMap.mp ha
        exact h z' (List.mem_cons_of_mem _ hz') (fun he => hz (hzy ▸ he ▸ hz')) a ha
      rw [hrest, hzy, Nat.add_zero]
    · have hhere : (f z).countP p = 0 :=
        List.countP_eq_zero.mpr (h z List.mem_cons_self hzy)
      rw [hhere, Nat.zero_add]
      refine countP_flatMap_eq hnd' ((List.mem_cons.mp hy).resolve_left fun he => hzy he.symm) ?_
      exact fun z' hz' => h z' (List.mem_cons_of_mem _ hz')

/-! ## One tree -/

namespace Tree

/-- A subtree without a paired node, at the root or below a subtree with one. -/
def IsMaximalFree (t : Tree) (paired : Nat → Bool) (i : Nat) : Prop :=
  (∀ j ∈ t.preOrder i, paired j = false) ∧
    (i = t.root ∨ ∃ p, t.parent? i = some p ∧ ∃ j ∈ t.preOrder p, paired j = true)

/-- An unpaired node above a paired one. -/
def IsPartlyPaired (t : Tree) (paired : Nat → Bool) (i : Nat) : Prop :=
  paired i = false ∧ ∃ j ∈ t.descendants i, paired j = true

/-- What a walk says at a node that is or is not paired: `alone` if the node is above a paired one,
`whole` at the top of a free subtree. -/
def remarks (t : Tree) (paired : Nat → Bool) (alone whole : Nat → Action) (i : Nat) : List Action :=
  if paired i then []
  else if !t.isFree paired i then [alone i]
  else if !t.belowFree paired i then [whole i]
  else []

variable {t : Tree} {paired : Nat → Bool} {alone whole : Nat → Action} {a : Action} {i : Nat}

theorem isMaximalFree_of_isTop (hi : i < t.size) (h : t.IsTop paired i) :
    t.IsMaximalFree paired i := by
  refine ⟨fun j hj => (isFree_iff hi).mp h.1 j (mem_preOrder_iff.mp hj).2, ?_⟩
  cases hp : t.parent? i with
  | none => exact Or.inl (eq_root_of_parent?_none hi hp)
  | some p =>
    have hlt : p < t.size := Nat.lt_trans (lt_of_parent? hp) hi
    obtain ⟨j, hpj, hj⟩ := (isFree_eq_false_iff hlt).mp (h.parent_not_free hp)
    exact Or.inr ⟨p, rfl, j, mem_preOrder_iff.mpr ⟨hlt, hpj⟩, hj⟩

theorem isPartlyPaired_of_not_free (hi : i < t.size) (hp : paired i = false)
    (hf : t.isFree paired i = false) : t.IsPartlyPaired paired i := by
  obtain ⟨j, hij, hj⟩ := (isFree_eq_false_iff hi).mp hf
  refine ⟨hp, j, mem_descendants_iff.mpr ⟨hi, hij, ?_⟩, hj⟩
  rintro rfl
  rw [hp] at hj
  cases hj

theorem mem_remarks_iff :
    a ∈ t.remarks paired alone whole i ↔
      (paired i = false ∧ t.isFree paired i = false ∧ a = alone i) ∨
      (paired i = false ∧ t.IsTop paired i ∧ a = whole i) := by
  unfold remarks IsTop
  cases paired i <;> cases t.isFree paired i <;> cases t.belowFree paired i <;> simp

end Tree

namespace EditScript

variable {t : Tree} {paired : Nat → Bool} {aloneKind wholeKind : ActionKind}
  {alone whole : Nat → Action} {i : Nat} {walk : List Nat}

/-- A script accounts for the nodes of a tree with actions of two kinds. -/
structure AccountsForSide (t : Tree) (paired : Nat → Bool) (aloneKind wholeKind : ActionKind)
    (script : EditScript) : Prop where
  /-- Each node is paired, or one action names it, or it is inside one subtree named as a whole, and
  only one of these. -/
  once : ∀ i, i < t.size →
    (paired i).toNat + script.countP (·.names aloneKind i) +
      script.countP (·.spans wholeKind t i) = 1
  /-- What is named as a whole is a largest subtree without paired nodes. -/
  whole : ∀ a ∈ script, a.kind = wholeKind → a.node < t.size ∧ t.IsMaximalFree paired a.node
  /-- What is named alone is unpaired and above a paired node. -/
  alone : ∀ a ∈ script, a.kind = aloneKind → a.node < t.size ∧ t.IsPartlyPaired paired a.node

section Walk

/-! The remarks of a walk over a whole tree, in any order. -/

variable (hkind : aloneKind ≠ wholeKind)
  (halone : ∀ i, (alone i).kind = aloneKind ∧ (alone i).node = i)
  (hwhole : ∀ i, (whole i).kind = wholeKind ∧ (whole i).node = i)
  (hnd : walk.Nodup) (hwalk : ∀ i, i ∈ walk ↔ i < t.size)

include hkind halone hwhole hnd hwalk

theorem countP_names_remarks (hi : i < t.size) :
    (walk.flatMap (t.remarks paired alone whole)).countP (·.names aloneKind i) =
      if paired i = false ∧ t.isFree paired i = false then 1 else 0 := by
  rw [countP_flatMap_eq hnd ((hwalk i).mpr hi)]
  · unfold Tree.remarks
    cases paired i <;> cases t.isFree paired i <;> cases t.belowFree paired i <;>
      simp [Action.names, halone, hwhole, hkind.symm]
  · intro z _ hzi a ha hn
    obtain ⟨-, hnode⟩ := Action.names_eq_true_iff.mp hn
    rcases Tree.mem_remarks_iff.mp ha with ⟨-, -, rfl⟩ | ⟨-, -, rfl⟩
    · exact hzi ((halone z).2.symm.trans hnode)
    · exact hzi ((hwhole z).2.symm.trans hnode)

theorem countP_spans_remarks (hi : i < t.size) :
    (walk.flatMap (t.remarks paired alone whole)).countP (·.spans wholeKind t i) =
      if t.isFree paired i = true then 1 else 0 := by
  obtain ⟨y, hy, hspeaks⟩ := Tree.exists_speaksFor paired hi
  rw [countP_flatMap_eq hnd ((hwalk y).mpr hy), hspeaks.isFree_eq hy]
  · rcases hspeaks with ⟨hf, rfl⟩ | ⟨htop, hyi⟩
    · unfold Tree.remarks
      cases paired i <;> simp [hf, Action.spans, halone, hkind]
    · have hp := Tree.paired_eq_false_of_isFree hy htop.1
      simp [Tree.remarks, hp, htop.1, htop.2, Action.spans, hwhole, Tree.mem_preOrder_iff, hy, hyi]
  · intro z hz hzy a ha hs
    obtain ⟨hak, -, hai⟩ := Action.spans_eq_true_iff.mp hs
    rcases Tree.mem_remarks_iff.mp ha with ⟨-, -, rfl⟩ | ⟨-, htop, rfl⟩
    · exact hkind ((halone z).1.symm.trans hak)
    · rw [(hwhole z).2] at hai
      exact hzy (Tree.SpeaksFor.unique ((hwalk z).mp hz) hy (Or.inr ⟨htop, hai⟩) hspeaks)

/-- **The remarks of a walk account for the nodes of the tree.** -/
theorem accountsForSide_remarks :
    AccountsForSide t paired aloneKind wholeKind
      (walk.flatMap (t.remarks paired alone whole)) where
  once i hi := by
    rw [countP_names_remarks hkind halone hwhole hnd hwalk hi,
      countP_spans_remarks hkind halone hwhole hnd hwalk hi]
    cases hp : paired i with
    | true => simp [Tree.isFree_eq_false_of_paired hi hp]
    | false => cases t.isFree paired i <;> simp
  whole a ha hk := by
    obtain ⟨z, hz, ha⟩ := List.mem_flatMap.mp ha
    have hlt := (hwalk z).mp hz
    rcases Tree.mem_remarks_iff.mp ha with ⟨-, -, rfl⟩ | ⟨-, htop, rfl⟩
    · exact absurd ((halone z).1.symm.trans hk) hkind
    · rw [(hwhole z).2]
      exact ⟨hlt, Tree.isMaximalFree_of_isTop hlt htop⟩
  alone a ha hk := by
    obtain ⟨z, hz, ha⟩ := List.mem_flatMap.mp ha
    have hlt := (hwalk z).mp hz
    rcases Tree.mem_remarks_iff.mp ha with ⟨hp, hf, rfl⟩ | ⟨-, -, rfl⟩
    · rw [(halone z).2]
      exact ⟨hlt, Tree.isPartlyPaired_of_not_free hlt hp hf⟩
    · exact absurd (hk.symm.trans (hwhole z).1) hkind

end Walk

theorem AccountsForSide.not_named_of_paired {script : EditScript}
    (h : AccountsForSide t paired aloneKind wholeKind script) (hi : i < t.size)
    (hpaired : paired i = true) :
    ∀ a ∈ script, a.names aloneKind i = false ∧ a.spans wholeKind t i = false := by
  have honce := h.once i hi
  rw [hpaired, Bool.toNat_true] at honce
  have hnames : script.countP (·.names aloneKind i) = 0 := by omega
  have hspans : script.countP (·.spans wholeKind t i) = 0 := by omega
  intro a ha
  exact ⟨Bool.eq_false_iff.mpr (List.countP_eq_zero.mp hnames a ha),
    Bool.eq_false_iff.mpr (List.countP_eq_zero.mp hspans a ha)⟩

/-- Actions of other kinds do not matter for the account. -/
theorem AccountsForSide.of_filter {script : EditScript}
    (h : AccountsForSide t paired aloneKind wholeKind
      (script.filter (fun a => a.kind == aloneKind || a.kind == wholeKind))) :
    AccountsForSide t paired aloneKind wholeKind script where
  once i hi := by
    have hnames : (fun a : Action => a.names aloneKind i &&
        (a.kind == aloneKind || a.kind == wholeKind)) = (·.names aloneKind i) := by
      funext a
      cases hk : a.kind == aloneKind <;> simp [Action.names, hk]
    have hspans : (fun a : Action => a.spans wholeKind t i &&
        (a.kind == aloneKind || a.kind == wholeKind)) = (·.spans wholeKind t i) := by
      funext a
      cases hk : a.kind == wholeKind <;> simp [Action.spans, hk]
    have := h.once i hi
    rwa [List.countP_filter, List.countP_filter, hnames, hspans] at this
  whole a ha hk := h.whole a (List.mem_filter.mpr ⟨ha, by simp [hk]⟩) hk
  alone a ha hk := h.alone a (List.mem_filter.mpr ⟨ha, by simp [hk]⟩) hk

/-! ## Both trees -/

variable {src dst : Tree} {m : Mapping}

theorem filter_atDestination (x : Nat) :
    (atDestination src dst m x).filter (fun a => a.kind == .insertNode || a.kind == .insertTree) =
      dst.remarks m.hasDst (fun x => .insertNode x (dst.parent? x) (dst.position x))
        (fun x => .insertTree x (dst.parent? x) (dst.position x)) x := by
  cases hx : m.srcOf? x with
  | none =>
    rw [atDestination_of_unpaired hx, Tree.remarks, if_neg (by simp [Mapping.hasDst, hx])]
    rw [insertion_eq]
    cases dst.isFree m.hasDst x <;> cases dst.belowFree m.hasDst x <;> rfl
  | some s =>
    rw [atDestination_of_paired hx, Tree.remarks, if_pos (by simp [Mapping.hasDst, hx])]
    refine List.filter_eq_nil_iff.mpr fun a ha => ?_
    rcases List.mem_append.mp ha with ha | ha
    · obtain ⟨-, rfl⟩ := mem_update_iff.mp ha
      simp [Action.kind]
    · obtain ⟨px, ps, -, -, -, rfl⟩ := mem_relocation_iff.mp ha
      simp [Action.kind]

/-- What stands at a destination node does not delete. -/
theorem isDeletion_of_mem_atDestination {a : Action} {x : Nat}
    (ha : a ∈ atDestination src dst m x) : a.isDeletion = false := by
  rcases mem_atDestination_iff.mp ha with ⟨-, -, rfl⟩ | ⟨-, -, rfl⟩ | ⟨s, -, -, rfl⟩ |
    ⟨s, px, ps, -, -, -, -, rfl⟩ <;> rfl

/-- What stands at a source node deletes. -/
theorem isDeletion_of_mem_atSource {a : Action} {s : Nat} (ha : a ∈ atSource src m s) :
    a.isDeletion = true := by
  rcases mem_atSource_iff.mp ha with ⟨-, -, rfl⟩ | ⟨-, -, rfl⟩ <;> rfl

theorem filter_inserting_ofMapping :
    (ofMapping src dst m).filter (fun a => a.kind == .insertNode || a.kind == .insertTree) =
      dst.breadthFirst.flatMap
        (dst.remarks m.hasDst (fun x => .insertNode x (dst.parent? x) (dst.position x))
          (fun x => .insertTree x (dst.parent? x) (dst.position x))) := by
  have hsource : ((src.postOrder src.root).flatMap (atSource src m)).filter
      (fun a => a.kind == .insertNode || a.kind == .insertTree) = [] := by
    refine List.filter_eq_nil_iff.mpr fun a ha => ?_
    obtain ⟨s, -, ha⟩ := List.mem_flatMap.mp ha
    rcases mem_atSource_iff.mp ha with ⟨-, -, rfl⟩ | ⟨-, -, rfl⟩ <;> simp [Action.kind]
  rw [ofMapping_eq, List.filter_append, hsource, List.append_nil, List.filter_flatMap]
  simp only [filter_atDestination]

theorem filter_deleting_ofMapping :
    (ofMapping src dst m).filter (fun a => a.kind == .deleteNode || a.kind == .deleteTree) =
      (src.postOrder src.root).flatMap (src.remarks m.hasSrc .deleteNode .deleteTree) := by
  have hdestination : (dst.breadthFirst.flatMap (atDestination src dst m)).filter
      (fun a => a.kind == .deleteNode || a.kind == .deleteTree) = [] := by
    refine List.filter_eq_nil_iff.mpr fun a ha => ?_
    obtain ⟨x, -, ha⟩ := List.mem_flatMap.mp ha
    exact Bool.not_eq_true _ ▸ isDeletion_of_mem_atDestination ha
  rw [ofMapping_eq, List.filter_append, hdestination, List.nil_append]
  refine List.filter_eq_self.mpr fun a ha => ?_
  obtain ⟨s, -, ha⟩ := List.mem_flatMap.mp ha
  exact isDeletion_of_mem_atSource ha

theorem accountsForSide_destination :
    (ofMapping src dst m).AccountsForSide dst m.hasDst .insertNode .insertTree := by
  refine .of_filter ?_
  rw [filter_inserting_ofMapping]
  exact accountsForSide_remarks (by decide) (fun _ => ⟨rfl, rfl⟩) (fun _ => ⟨rfl, rfl⟩)
    dst.breadthFirst_nodup fun _ => Tree.mem_breadthFirst

theorem accountsForSide_source :
    (ofMapping src dst m).AccountsForSide src m.hasSrc .deleteNode .deleteTree := by
  refine .of_filter ?_
  rw [filter_deleting_ofMapping]
  exact accountsForSide_remarks (by decide) (fun _ => ⟨rfl, rfl⟩) (fun _ => ⟨rfl, rfl⟩)
    src.postOrder_root_nodup fun _ => Tree.mem_postOrder_root

theorem deletions_last :
    (ofMapping src dst m).Pairwise (fun a b => a.isDeletion = true → b.isDeletion = true) := by
  have hfirst : ∀ a ∈ dst.breadthFirst.flatMap (atDestination src dst m),
      a.isDeletion = false := by
    intro a ha
    obtain ⟨x, -, ha⟩ := List.mem_flatMap.mp ha
    exact isDeletion_of_mem_atDestination ha
  have hlast : ∀ a ∈ (src.postOrder src.root).flatMap (atSource src m), a.isDeletion = true := by
    intro a ha
    obtain ⟨s, -, ha⟩ := List.mem_flatMap.mp ha
    exact isDeletion_of_mem_atSource ha
  rw [ofMapping_eq]
  refine List.pairwise_append.mpr ⟨?_, ?_, fun a _ b hb _ => hlast b hb⟩
  · refine List.pairwise_of_forall_mem_list fun a ha b _ hdel => ?_
    rw [hfirst a ha] at hdel
    cases hdel
  · exact List.pairwise_of_forall_mem_list fun a _ b hb _ => hlast b hb

/-! ## Updates and moves -/

/-- An update or a move stands at the partner of its node. -/
theorem srcOf?_of_mem_atDestination {a : Action} {x : Nat} (ha : a ∈ atDestination src dst m x)
    (hk : a.kind = .updateNode ∨ a.kind = .move) : m.srcOf? x = some a.node := by
  rcases mem_atDestination_iff.mp ha with ⟨-, -, rfl⟩ | ⟨-, -, rfl⟩ | ⟨s, hs, -, rfl⟩ |
    ⟨s, px, ps, hs, -, -, -, rfl⟩
  · simp [Action.kind] at hk
  · simp [Action.kind] at hk
  · exact hs
  · exact hs

theorem exists_pair_of_mem_ofMapping {a : Action} (ha : a ∈ ofMapping src dst m)
    (hk : a.kind = .updateNode ∨ a.kind = .move) :
    ∃ x, m.dstOf? a.node = some x ∧
      (a ∈ update src dst a.node x ∨ a ∈ relocation src dst m a.node x) := by
  rcases mem_ofMapping_iff.mp ha with ⟨x, -, ha⟩ | ⟨z, -, ha⟩
  · have hx := srcOf?_of_mem_atDestination ha hk
    rw [atDestination_of_paired hx, List.mem_append] at ha
    exact ⟨x, Mapping.dstOf?_eq_some_iff.mpr hx, ha⟩
  · have hdel := isDeletion_of_mem_atSource ha
    rw [Action.isDeletion] at hdel
    rcases hk with hk | hk <;> rw [hk] at hdel <;> cases hdel

/-- Only a node with another label than its partner is updated. -/
theorem label?_ne_of_mem_ofMapping {a : Action} (ha : a ∈ ofMapping src dst m)
    (hk : a.kind = .updateNode) :
    ∃ x, m.dstOf? a.node = some x ∧ src.label? a.node ≠ dst.label? x := by
  obtain ⟨x, hx, ha | ha⟩ := exists_pair_of_mem_ofMapping ha (Or.inl hk)
  · exact ⟨x, hx, (mem_update_iff.mp ha).1⟩
  · obtain ⟨px, ps, -, -, -, he⟩ := mem_relocation_iff.mp ha
    rw [he] at hk
    cases hk

/-- Only a node whose parent is not paired with its partner's parent is moved. -/
theorem parent?_ne_of_mem_ofMapping {a : Action} (ha : a ∈ ofMapping src dst m)
    (hk : a.kind = .move) :
    ∃ x px ps, m.dstOf? a.node = some x ∧ dst.parent? x = some px ∧
      src.parent? a.node = some ps ∧ m.dstOf? ps ≠ some px := by
  obtain ⟨x, hx, ha | ha⟩ := exists_pair_of_mem_ofMapping ha (Or.inr hk)
  · rw [(mem_update_iff.mp ha).2] at hk
    cases hk
  · obtain ⟨px, ps, hpx, hps, hne, -⟩ := mem_relocation_iff.mp ha
    exact ⟨x, px, ps, hx, hpx, hps, hne⟩

/-- At a destination node stands at most one action of each kind. -/
theorem countP_kind_atDestination (kind : ActionKind) (x : Nat) :
    (atDestination src dst m x).countP (·.kind == kind) ≤ 1 := by
  cases hx : m.srcOf? x with
  | none =>
    rw [atDestination_of_unpaired hx]
    refine Nat.le_trans List.countP_le_length ?_
    rw [insertion_eq]
    cases dst.isFree m.hasDst x <;> cases dst.belowFree m.hasDst x <;> simp
  | some s =>
    have hupdate : (update src dst s x).countP (·.kind == kind) ≤
        if kind = .updateNode then 1 else 0 := by
      unfold update
      split
      · cases kind <;> simp [Action.kind]
      · simp
    have hmove : (relocation src dst m s x).countP (·.kind == kind) ≤
        if kind = .move then 1 else 0 := by
      unfold relocation
      split
      · split
        · cases kind <;> simp [Action.kind]
        · simp
      · simp
    have hboth : (if kind = .updateNode then 1 else 0) + (if kind = .move then 1 else 0) ≤ 1 := by
      cases kind <;> decide
    rw [atDestination_of_paired hx, List.countP_append]
    exact Nat.le_trans (Nat.add_le_add hupdate hmove) hboth

theorem countP_names_ofMapping_le_one {kind : ActionKind} (hk : kind = .updateNode ∨ kind = .move)
    (s : Nat) : (ofMapping src dst m).countP (·.names kind s) ≤ 1 := by
  have hsource :
      ((src.postOrder src.root).flatMap (atSource src m)).countP (·.names kind s) = 0 := by
    refine List.countP_eq_zero.mpr fun a ha hn => ?_
    obtain ⟨z, -, ha⟩ := List.mem_flatMap.mp ha
    have hdel := isDeletion_of_mem_atSource ha
    rw [Action.isDeletion, (Action.names_eq_true_iff.mp hn).1] at hdel
    rcases hk with rfl | rfl <;> cases hdel
  rw [ofMapping_eq, List.countP_append, hsource, Nat.add_zero]
  by_cases hzero : ∀ a ∈ dst.breadthFirst.flatMap (atDestination src dst m), ¬ a.names kind s = true
  · rw [List.countP_eq_zero.mpr hzero]
    exact Nat.zero_le 1
  · -- all actions of the kind about `s` stand at one destination node, the partner of `s`
    have howner : ∀ {a : Action} {x : Nat}, a ∈ atDestination src dst m x → a.names kind s = true →
        m.srcOf? x = some s := by
      intro a x ha hn
      obtain ⟨hak, hnode⟩ := Action.names_eq_true_iff.mp hn
      exact hnode ▸ srcOf?_of_mem_atDestination ha (hak ▸ hk)
    obtain ⟨a, x, hx, ha, hn⟩ : ∃ a x, x ∈ dst.breadthFirst ∧ a ∈ atDestination src dst m x ∧
        a.names kind s = true := by
      simpa using hzero
    rw [countP_flatMap_eq dst.breadthFirst_nodup hx]
    · refine Nat.le_trans (List.countP_mono_left fun b _ hb => ?_)
        (countP_kind_atDestination kind x)
      simp [(Action.names_eq_true_iff.mp hb).1]
    · intro z _ hzx b hb hbn
      exact hzx (Mapping.srcOf?_injective (howner hb hbn) (howner ha hn))

/-! ## Places -/

/-- The position of a node is its index among the children of its parent. -/
theorem getElem?_position {i p : Nat} (hp : t.parent? i = some p) :
    (t.children p)[t.position i]? = some i := by
  have hmem : i ∈ t.children p := Tree.mem_children.mpr hp
  have hpos : t.position i = (t.children p).idxOf i := by
    rw [Tree.position, hp]
    rfl
  rw [hpos, List.getElem?_eq_getElem (List.idxOf_lt_length_of_mem hmem), List.getElem_idxOf]

/-- What an edit script owes to two trees and a mapping between them. -/
structure Accounts (src dst : Tree) (m : Mapping) (script : EditScript) : Prop where
  destination : AccountsForSide dst m.hasDst .insertNode .insertTree script
  source : AccountsForSide src m.hasSrc .deleteNode .deleteTree script
  /-- After a deletion there are only deletions. -/
  deletionsLast : script.Pairwise (fun a b => a.isDeletion = true → b.isDeletion = true)
  updatedOnce : ∀ s, script.countP (·.names .updateNode s) ≤ 1
  movedOnce : ∀ s, script.countP (·.names .move s) ≤ 1
  /-- An insertion gives the parent of its node and the node's index among the children. -/
  insertedAt : ∀ x parent position,
    .insertNode x parent position ∈ script ∨ .insertTree x parent position ∈ script →
      parent = dst.parent? x ∧ ∀ p, parent = some p → (dst.children p)[position]? = some x
  /-- A move gives the parent of the node's partner and the partner's index among the children. -/
  movedTo : ∀ s p position, .move s p position ∈ script →
    ∃ x, m.dstOf? s = some x ∧ dst.parent? x = some p ∧ (dst.children p)[position]? = some x

theorem insertedAt_ofMapping {a : Action} {x position : Nat} {parent : Option Nat}
    (ha : a ∈ ofMapping src dst m)
    (h : a = .insertNode x parent position ∨ a = .insertTree x parent position) :
    parent = dst.parent? x ∧ ∀ p, parent = some p → (dst.children p)[position]? = some x := by
  obtain ⟨rfl, rfl⟩ : parent = dst.parent? x ∧ position = dst.position x := by
    rcases mem_ofMapping_iff.mp ha with ⟨y, -, ha⟩ | ⟨s, -, ha⟩
    · rcases mem_atDestination_iff.mp ha with ⟨-, -, he⟩ | ⟨-, -, he⟩ | ⟨s, -, -, he⟩ |
        ⟨s, px, ps, -, -, -, -, he⟩ <;> rcases h with rfl | rfl <;> cases he <;> exact ⟨rfl, rfl⟩
    · have hdel := isDeletion_of_mem_atSource ha
      rcases h with rfl | rfl <;> cases hdel
  exact ⟨rfl, fun p hp => getElem?_position hp⟩

/-- **An edit script accounts for every node of both trees.** -/
theorem ofMapping_accounts (src dst : Tree) (m : Mapping) :
    (ofMapping src dst m).Accounts src dst m where
  destination := accountsForSide_destination
  source := accountsForSide_source
  deletionsLast := deletions_last
  updatedOnce := countP_names_ofMapping_le_one (Or.inl rfl)
  movedOnce := countP_names_ofMapping_le_one (Or.inr rfl)
  insertedAt x parent position h := by
    rcases h with h | h
    · exact insertedAt_ofMapping h (Or.inl rfl)
    · exact insertedAt_ofMapping h (Or.inr rfl)
  movedTo s p position h := by
    rcases mem_ofMapping_iff.mp h with ⟨x, -, h⟩ | ⟨z, -, h⟩
    · have hs := srcOf?_of_mem_atDestination h (Or.inr rfl)
      rw [atDestination_of_paired hs, List.mem_append, mem_update_iff, mem_relocation_iff] at h
      rcases h with ⟨-, he⟩ | ⟨px, ps, hpx, -, -, he⟩
      · cases he
      · cases he
        exact ⟨x, Mapping.dstOf?_eq_some_iff.mpr hs, hpx, getElem?_position hpx⟩
    · cases isDeletion_of_mem_atSource h

end EditScript

end CallDelta

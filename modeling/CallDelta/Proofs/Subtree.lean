import CallDelta.Tree.Walk

/-!
# Subtrees

`Tree.Within` says, by the chain of parents, that a node lies in the subtree of another. The walks
are computed with a stack or a queue. Here they are tied to `Within`.

* `Tree.mem_preOrder_iff`: the pre-order of a node lists its subtree
* `Tree.preOrder_nodup`: and lists no node twice
* `Tree.postOrder_eq_append`: the post-order of a node is made of those of its children
* `Tree.breadthFirst_perm_ids`, `Tree.postOrder_root_perm_ids`: the walks over the whole tree list
  each node once
-/

namespace CallDelta

namespace Tree

variable {t : Tree}

/-! ## Children and parents -/

/-- The children of a node are the nodes that name it as their parent, by number. -/
theorem children_eq_filter (t : Tree) (i : Nat) :
    t.children i = t.ids.filter (fun j => t.parent? j = some i) := by
  by_cases hi : i < t.size
  · unfold children get?
    rw [Array.getElem?_eq_getElem hi, Option.map_some, Option.getD_some, t.children_eq i hi]
    rfl
  · have hnone : ∀ j, ¬ t.parent? j = some i := fun j hj =>
      hi (Nat.lt_trans (lt_of_parent? hj) (lt_size_of_parent? hj))
    unfold children get?
    rw [Array.getElem?_eq_none (Nat.le_of_not_lt hi)]
    simp [hnone]

theorem children_nodup (t : Tree) (i : Nat) : (t.children i).Nodup := by
  rw [children_eq_filter]
  exact List.nodup_range.filter _

theorem root_lt_size (t : Tree) : t.root < t.size := t.size_pos

@[simp] theorem parent?_root (t : Tree) : t.parent? t.root = none := by
  cases hp : t.parent? t.root with
  | none => rfl
  | some p => exact absurd (lt_of_parent? hp) (Nat.not_lt_zero p)

/-- Every other node has a parent. -/
theorem exists_parent? {i : Nat} (hi : i < t.size) (hr : i ≠ t.root) : ∃ p, t.parent? i = some p :=
  Option.isSome_iff_exists.mp (t.parent_isSome i (Nat.pos_of_ne_zero hr) hi)

theorem eq_root_of_parent?_none {i : Nat} (hi : i < t.size) (hp : t.parent? i = none) :
    i = t.root := by
  by_cases hr : i = t.root
  · exact hr
  · obtain ⟨p, hp'⟩ := exists_parent? hi hr
    rw [hp] at hp'
    cases hp'

/-- What passes from the children of a node to the node holds of all nodes. -/
theorem induction_children {P : Nat → Prop} (h : ∀ i, (∀ c ∈ t.children i, P c) → P i) (i : Nat) :
    P i := by
  -- the distance from the end of the list of nodes falls from a node to its children
  generalize hn : t.size - i = n
  induction n using Nat.strongRecOn generalizing i with
  | _ n ih =>
    refine h i fun c hc => ih (t.size - c) ?_ c rfl
    have h₁ := lt_of_mem_children hc
    have h₂ := lt_size_of_mem_children hc
    omega

/-! ## Lying in a subtree -/

/-- Node `i` lies in the subtree of `a`: it is `a`, or its parent lies there. -/
inductive Within (t : Tree) (a : Nat) : Nat → Prop
  | refl : Within t a a
  | step {i p : Nat} : t.parent? i = some p → Within t a p → Within t a i

namespace Within

variable {a b c i p : Nat}

theorem trans (hab : t.Within a b) (hbc : t.Within b c) : t.Within a c := by
  induction hbc with
  | refl => exact hab
  | step hp _ ih => exact step hp ih

theorem of_parent? (hp : t.parent? i = some p) : t.Within p i := step hp refl

theorem le (h : t.Within a i) : a ≤ i := by
  induction h with
  | refl => exact Nat.le_refl _
  | step hp _ ih =>
    have := lt_of_parent? hp
    omega

/-- A subtree with a known top has known nodes only. -/
theorem lt_size (h : t.Within a i) (ha : a < t.size) : i < t.size := by
  cases h with
  | refl => exact ha
  | step hp _ => exact lt_size_of_parent? hp

/-- Seen from below: apart from its top, a subtree holds the parent of each of its nodes. -/
theorem parent (h : t.Within a i) (hp : t.parent? i = some p) (hne : i ≠ a) : t.Within a p := by
  cases h with
  | refl => exact absurd rfl hne
  | step hp' h' =>
    rw [hp] at hp'
    cases hp'
    exact h'

/-- Seen from above: apart from its top, a subtree consists of the subtrees of the top's
children. -/
theorem iff_children : t.Within a i ↔ i = a ∨ ∃ c ∈ t.children a, t.Within c i := by
  constructor
  · intro h
    induction h with
    | refl => exact Or.inl rfl
    | @step i p hp _ ih =>
      refine Or.inr ?_
      rcases ih with rfl | ⟨c, hc, hcp⟩
      · exact ⟨i, mem_children.mpr hp, refl⟩
      · exact ⟨c, hc, step hp hcp⟩
  · rintro (rfl | ⟨c, hc, hci⟩)
    · exact refl
    · exact (of_parent? (mem_children.mp hc)).trans hci

/-- Of two subtrees with a common node one contains the other. -/
theorem comparable (ha : t.Within a i) (hb : t.Within b i) : t.Within a b ∨ t.Within b a := by
  induction ha with
  | refl => exact Or.inr hb
  | @step i p hp hap ih =>
    by_cases hib : i = b
    · exact Or.inl (hib ▸ step hp hap)
    · exact ih (hb.parent hp hib)

/-- The subtrees of siblings have no node in common. -/
theorem siblings_eq (ha : t.Within a i) (hb : t.Within b i) (hpa : t.parent? a = some p)
    (hpb : t.parent? b = some p) : a = b := by
  have hlt : ∀ {x y : Nat}, t.parent? x = some p → t.parent? y = some p → t.Within x y → x = y := by
    intro x y hx hy hxy
    by_cases hne : y = x
    · exact hne.symm
    · exact absurd (hxy.parent hy hne).le (Nat.not_le.mpr (lt_of_parent? hx))
  rcases ha.comparable hb with hab | hba
  · exact hlt hpa hpb hab
  · exact (hlt hpb hpa hba).symm

theorem root_iff : t.Within a t.root ↔ a = t.root := by
  constructor
  · intro h
    exact Nat.le_zero.mp h.le
  · rintro rfl
    exact refl

/-- The whole tree lies below the root. -/
theorem of_root (hi : i < t.size) : t.Within t.root i := by
  induction i using Nat.strongRecOn with
  | _ i ih =>
    by_cases hr : i = t.root
    · exact hr ▸ refl
    · obtain ⟨p, hp⟩ := exists_parent? hi hr
      have hlt := lt_of_parent? hp
      exact step hp (ih p hlt (Nat.lt_trans hlt hi))

end Within

/-- The ancestors of a node are the other nodes in whose subtree it lies. -/
theorem mem_ancestors_iff {a i : Nat} : a ∈ t.ancestors i ↔ t.Within a i ∧ a ≠ i := by
  induction i using Nat.strongRecOn with
  | _ i ih =>
    rw [ancestors_eq]
    cases hp : t.parent? i with
    | none =>
      simp only [List.not_mem_nil, false_iff, not_and, Decidable.not_not]
      rintro (_ | ⟨hp', -⟩)
      · rfl
      · rw [hp] at hp'
        cases hp'
    | some p =>
      have hlt := lt_of_parent? hp
      rw [List.mem_cons, ih p hlt]
      constructor
      · rintro (rfl | ⟨h, -⟩)
        · exact ⟨.of_parent? hp, Nat.ne_of_lt hlt⟩
        · exact ⟨.step hp h, Nat.ne_of_lt (Nat.lt_of_le_of_lt h.le hlt)⟩
      · rintro ⟨h, hne⟩
        exact (Decidable.em (a = p)).imp_right fun hap => ⟨h.parent hp (Ne.symm hne), hap⟩

/-! ## The walk in pre-order -/

@[simp] theorem visit_nil (t : Tree) : t.visit [] = [] := by rw [visit]

theorem visit_cons (t : Tree) (i : Nat) (rest : List Nat) :
    t.visit (i :: rest) = i :: t.visit (t.children i ++ rest) := by rw [visit]

/-- A walk over two lists of nodes is a walk over the one and then over the other. -/
theorem visit_append (t : Tree) (xs ys : List Nat) :
    t.visit (xs ++ ys) = t.visit xs ++ t.visit ys := by
  fun_induction visit t xs with
  | case1 => rfl
  | case2 i rest ih =>
    rw [List.cons_append, visit_cons, ← List.append_assoc, ih, List.cons_append]

theorem visit_eq_flatMap (t : Tree) (xs : List Nat) :
    t.visit xs = xs.flatMap (fun i => t.visit [i]) := by
  induction xs with
  | nil => simp
  | cons i rest ih => rw [← List.singleton_append, visit_append, ih, List.flatMap_append]; simp

theorem known_of_lt {i : Nat} (hi : i < t.size) : t.known i = [i] := if_pos hi

theorem known_of_le {i : Nat} (hi : t.size ≤ i) : t.known i = [] := if_neg (Nat.not_lt.mpr hi)

theorem preOrder_of_lt {i : Nat} (hi : i < t.size) : t.preOrder i = t.visit [i] := by
  rw [preOrder, known_of_lt hi]

theorem preOrder_of_le {i : Nat} (hi : t.size ≤ i) : t.preOrder i = [] := by
  rw [preOrder, known_of_le hi, visit_nil]

theorem visit_cons_of_lt {i : Nat} (hi : i < t.size) (rest : List Nat) :
    t.visit (i :: rest) = t.preOrder i ++ t.visit rest := by
  rw [preOrder_of_lt hi, ← visit_append, List.singleton_append]

/-- The pre-order of a node is the node and then the walk over its children. -/
theorem preOrder_eq_cons {i : Nat} (hi : i < t.size) :
    t.preOrder i = i :: t.visit (t.children i) := by
  rw [preOrder_of_lt hi, visit_cons, List.append_nil]

theorem preOrder_eq_flatMap {i : Nat} (hi : i < t.size) :
    t.preOrder i = i :: (t.children i).flatMap t.preOrder := by
  rw [preOrder_eq_cons hi, visit_eq_flatMap, List.flatMap_def, List.flatMap_def]
  refine congrArg (fun ls => i :: List.flatten ls) (List.map_congr_left fun c hc => ?_)
  rw [preOrder_of_lt (lt_size_of_mem_children hc)]

theorem mem_visit_iff {stack : List Nat} {j : Nat} :
    j ∈ t.visit stack ↔ ∃ i ∈ stack, t.Within i j := by
  fun_induction visit t stack with
  | case1 => simp
  | case2 i rest ih =>
    rw [List.mem_cons, ih]
    constructor
    · rintro (rfl | ⟨k, hk, hkj⟩)
      · exact ⟨j, List.mem_cons_self, .refl⟩
      · rcases List.mem_append.mp hk with hk | hk
        · exact ⟨i, List.mem_cons_self, Within.iff_children.mpr (Or.inr ⟨k, hk, hkj⟩)⟩
        · exact ⟨k, List.mem_cons_of_mem _ hk, hkj⟩
    · rintro ⟨k, hk, hkj⟩
      rcases List.mem_cons.mp hk with rfl | hk
      · rcases Within.iff_children.mp hkj with hj | ⟨c, hc, hcj⟩
        · exact Or.inl hj
        · exact Or.inr ⟨c, List.mem_append_left _ hc, hcj⟩
      · exact Or.inr ⟨k, List.mem_append_right _ hk, hkj⟩

/-- **The pre-order of a node lists its subtree.** -/
theorem mem_preOrder_iff {i j : Nat} : j ∈ t.preOrder i ↔ i < t.size ∧ t.Within i j := by
  rw [preOrder, mem_visit_iff, known]
  by_cases hi : i < t.size
  · simp [hi]
  · simp [hi]

theorem mem_preOrder_self {i : Nat} (hi : i < t.size) : i ∈ t.preOrder i :=
  mem_preOrder_iff.mpr ⟨hi, .refl⟩

theorem lt_size_of_mem_preOrder {i j : Nat} (h : j ∈ t.preOrder i) : j < t.size := by
  obtain ⟨hi, hij⟩ := mem_preOrder_iff.mp h
  exact hij.lt_size hi

theorem mem_preOrder_root {i : Nat} (hi : i < t.size) : i ∈ t.preOrder t.root :=
  mem_preOrder_iff.mpr ⟨t.root_lt_size, .of_root hi⟩

/-- Proper descendants are the nodes of the subtree apart from its top. -/
theorem mem_descendants_iff {i j : Nat} :
    j ∈ t.descendants i ↔ i < t.size ∧ t.Within i j ∧ j ≠ i := by
  by_cases hi : i < t.size
  · rw [descendants, preOrder_eq_cons hi, List.tail_cons, mem_visit_iff]
    constructor
    · rintro ⟨c, hc, hcj⟩
      have hlt := lt_of_mem_children hc
      refine ⟨hi, Within.iff_children.mpr (Or.inr ⟨c, hc, hcj⟩), ?_⟩
      have := hcj.le
      omega
    · rintro ⟨-, hij, hne⟩
      exact (Within.iff_children.mp hij).resolve_left hne
  · simp [descendants, preOrder, known, hi]

theorem mem_ancestors_iff_isAncestor {a i : Nat} : a ∈ t.ancestors i ↔ t.isAncestor a i = true := by
  rw [← List.count_pos_iff, count_ancestors]
  split <;> simp_all

/-- Climbing up and walking down find the same descendants. -/
theorem isAncestor_iff_mem_descendants {a i : Nat} :
    t.isAncestor a i = true ↔ i ∈ t.descendants a := by
  rw [← mem_ancestors_iff_isAncestor]
  constructor
  · intro h
    obtain ⟨hwithin, hne⟩ := mem_ancestors_iff.mp h
    exact mem_descendants_iff.mpr ⟨lt_size_of_mem_ancestors h, hwithin, hne.symm⟩
  · intro h
    obtain ⟨-, hwithin, hne⟩ := mem_descendants_iff.mp h
    exact mem_ancestors_iff.mpr ⟨hwithin, hne.symm⟩

/-- The subtrees of two nodes have no node in common. -/
def Apart (t : Tree) (a b : Nat) : Prop := ∀ j, t.Within a j → ¬ t.Within b j

theorem children_pairwise_apart (t : Tree) (i : Nat) : (t.children i).Pairwise t.Apart := by
  refine (t.children_nodup i).imp_of_mem ?_
  intro a b ha hb hne j haj hbj
  exact hne (haj.siblings_eq hbj (mem_children.mp ha) (mem_children.mp hb))

/-- Visiting a node leaves the subtrees of the nodes to visit apart. -/
theorem pairwise_apart_children {i : Nat} {rest : List Nat} (h : (i :: rest).Pairwise t.Apart) :
    (t.children i ++ rest).Pairwise t.Apart := by
  obtain ⟨hi, hrest⟩ := List.pairwise_cons.mp h
  refine List.pairwise_append.mpr ⟨t.children_pairwise_apart i, hrest, ?_⟩
  intro c hc k hk j hcj hkj
  exact hi k hk j ((Within.of_parent? (mem_children.mp hc)).trans hcj) hkj

/-- No node that is visited later lies above the first. -/
theorem not_within_of_mem_visit {i j : Nat} {rest : List Nat} (h : (i :: rest).Pairwise t.Apart)
    (hj : j ∈ t.visit (t.children i ++ rest)) : ¬ t.Within j i := by
  intro hji
  obtain ⟨k, hk, hkj⟩ := mem_visit_iff.mp hj
  rcases List.mem_append.mp hk with hk | hk
  · exact absurd (hkj.trans hji).le (Nat.not_le.mpr (lt_of_mem_children hk))
  · exact (List.pairwise_cons.mp h).1 k hk i .refl (hkj.trans hji)

/-- Where the subtrees of the nodes to visit are apart, no node is visited twice. -/
theorem visit_nodup {stack : List Nat} (h : stack.Pairwise t.Apart) : (t.visit stack).Nodup := by
  fun_induction visit t stack with
  | case1 => exact List.nodup_nil
  | case2 i rest ih =>
    refine List.nodup_cons.mpr ⟨?_, ih (pairwise_apart_children h)⟩
    intro hi
    exact not_within_of_mem_visit h hi .refl

theorem preOrder_nodup (t : Tree) (i : Nat) : (t.preOrder i).Nodup := by
  refine visit_nodup ?_
  rw [known]
  by_cases hi : i < t.size
  · simp [hi]
  · simp [hi]

/-! ## The other walks -/

theorem visit_perm (t : Tree) {xs ys : List Nat} (h : xs.Perm ys) :
    (t.visit xs).Perm (t.visit ys) := by
  rw [visit_eq_flatMap, visit_eq_flatMap t ys]
  exact h.flatMap_right _

theorem visitFromRight_perm (t : Tree) (stack : List Nat) :
    (t.visitFromRight stack).Perm (t.visit stack) := by
  fun_induction visitFromRight t stack with
  | case1 => simp
  | case2 i rest ih =>
    rw [visit_cons]
    exact (ih.trans (t.visit_perm ((List.reverse_perm _).append_right _))).cons i

theorem postOrder_perm_preOrder (t : Tree) (i : Nat) : (t.postOrder i).Perm (t.preOrder i) :=
  (List.reverse_perm _).trans (t.visitFromRight_perm _)

theorem visitFromRight_append (t : Tree) (xs ys : List Nat) :
    t.visitFromRight (xs ++ ys) = t.visitFromRight xs ++ t.visitFromRight ys := by
  fun_induction visitFromRight t xs with
  | case1 => rfl
  | case2 i rest ih =>
    rw [List.cons_append, visitFromRight, ← List.append_assoc, ih, List.cons_append]

/-- From right to left and then backwards is from left to right. -/
theorem visitFromRight_reverse (t : Tree) (xs : List Nat) :
    (t.visitFromRight xs.reverse).reverse =
      xs.flatMap (fun i => (t.visitFromRight [i]).reverse) := by
  induction xs with
  | nil => simp [visitFromRight]
  | cons i rest ih =>
    rw [List.reverse_cons, visitFromRight_append, List.reverse_append, ih, List.flatMap_cons]

/-- **The post-order of a node is that of its children, one after the other, and then the node.** -/
theorem postOrder_eq_append {i : Nat} (hi : i < t.size) :
    t.postOrder i = (t.children i).flatMap t.postOrder ++ [i] := by
  rw [postOrder, known_of_lt hi, visitFromRight, List.append_nil, List.reverse_cons,
    visitFromRight_reverse, List.flatMap_def, List.flatMap_def]
  refine congrArg (fun ls => List.flatten ls ++ [i]) (List.map_congr_left fun c hc => ?_)
  rw [postOrder, known_of_lt (lt_size_of_mem_children hc)]

theorem visitLevels_perm (t : Tree) (queue : List Nat) :
    (t.visitLevels queue).Perm (t.visit queue) := by
  fun_induction visitLevels t queue with
  | case1 => simp
  | case2 i rest ih =>
    rw [visit_cons]
    exact (ih.trans (t.visit_perm List.perm_append_comm)).cons i

theorem preOrder_root_perm_ids (t : Tree) : (t.preOrder t.root).Perm t.ids := by
  refine (List.perm_ext_iff_of_nodup (t.preOrder_nodup _) List.nodup_range).mpr fun j => ?_
  rw [mem_preOrder_iff, List.mem_range]
  exact ⟨fun h => h.2.lt_size h.1, fun h => ⟨t.root_lt_size, .of_root h⟩⟩

/-- **The walk by levels lists each node once.** -/
theorem breadthFirst_perm_ids (t : Tree) : t.breadthFirst.Perm t.ids := by
  refine (t.visitLevels_perm _).trans ?_
  rw [← preOrder_of_lt t.root_lt_size]
  exact t.preOrder_root_perm_ids

/-- **The walk in post-order from the root lists each node once.** -/
theorem postOrder_root_perm_ids (t : Tree) : (t.postOrder t.root).Perm t.ids :=
  (t.postOrder_perm_preOrder t.root).trans t.preOrder_root_perm_ids

theorem mem_ids {i : Nat} : i ∈ t.ids ↔ i < t.size := List.mem_range

theorem mem_breadthFirst {i : Nat} : i ∈ t.breadthFirst ↔ i < t.size :=
  (t.breadthFirst_perm_ids.mem_iff).trans mem_ids

theorem breadthFirst_nodup (t : Tree) : t.breadthFirst.Nodup :=
  t.breadthFirst_perm_ids.nodup_iff.mpr List.nodup_range

theorem mem_postOrder_root {i : Nat} : i ∈ t.postOrder t.root ↔ i < t.size :=
  (t.postOrder_root_perm_ids.mem_iff).trans mem_ids

theorem postOrder_root_nodup (t : Tree) : (t.postOrder t.root).Nodup :=
  t.postOrder_root_perm_ids.nodup_iff.mpr List.nodup_range

end Tree

end CallDelta

import CallDelta.Proofs.FreeSubtree

/-!
# The order of the walks

The walk by levels meets each parent before its children, and the walk in post-order each child
before its parent. A walk that is cut in two has then met all that the next node depends on.

* `Tree.parent_mem_of_breadthFirst`: the parent of the next node has been met
* `Tree.child_mem_of_postOrder`: the children of the next node have been met
* `Tree.SpokenFor`: the nodes for which some node of a list speaks
-/

namespace CallDelta

namespace Tree

variable {t : Tree} {paired : Nat → Bool} {done rest : List Nat} {i p x y : Nat}

/-! ## Parents first -/

theorem Apart.symm {a b : Nat} (h : t.Apart a b) : t.Apart b a :=
  fun j hb ha => h j ha hb

theorem pairwise_apart_perm {xs ys : List Nat} (h : xs.Pairwise t.Apart) (hperm : xs.Perm ys) :
    ys.Pairwise t.Apart :=
  hperm.pairwise h fun hab => hab.symm

theorem visitLevels_parents_first {queue : List Nat} (h : queue.Pairwise t.Apart) :
    (t.visitLevels queue).Pairwise (fun a b => t.parent? a ≠ some b) := by
  fun_induction visitLevels t queue with
  | case1 => exact List.Pairwise.nil
  | case2 i rest ih =>
    refine List.pairwise_cons.mpr ⟨?_, ih (pairwise_apart_perm (pairwise_apart_children h)
      List.perm_append_comm)⟩
    intro b hb hp
    refine not_within_of_mem_visit h ?_ (.of_parent? hp)
    exact ((t.visitLevels_perm _).trans (t.visit_perm List.perm_append_comm)).mem_iff.mp hb

theorem visitFromRight_parents_first {stack : List Nat} (h : stack.Pairwise t.Apart) :
    (t.visitFromRight stack).Pairwise (fun a b => t.parent? a ≠ some b) := by
  fun_induction visitFromRight t stack with
  | case1 => exact List.Pairwise.nil
  | case2 i rest ih =>
    have hperm : (t.children i ++ rest).Perm ((t.children i).reverse ++ rest) :=
      (List.reverse_perm _).symm.append_right _
    refine List.pairwise_cons.mpr ⟨?_, ih (pairwise_apart_perm (pairwise_apart_children h) hperm)⟩
    intro b hb hp
    refine not_within_of_mem_visit h ?_ (.of_parent? hp)
    exact ((t.visitFromRight_perm _).trans (t.visit_perm hperm.symm)).mem_iff.mp hb

/-! ## A walk cut in two -/

/-- What may not come after `x` comes before it. -/
theorem mem_of_cut {R : Nat → Nat → Prop} (h : (done ++ x :: rest).Pairwise R)
    (hy : y ∈ done ++ x :: rest) (hne : y ≠ x) (hxy : ¬ R x y) : y ∈ done := by
  rcases List.mem_append.mp hy with hy | hy
  · exact hy
  · rcases List.mem_cons.mp hy with hy | hy
    · exact absurd hy hne
    · have hlater := (List.pairwise_append.mp h).2.1
      exact absurd ((List.pairwise_cons.mp hlater).1 y hy) hxy

/-- The next node of a walk over all nodes has not been met. -/
theorem next_of_cut {l : List Nat} (hl : l.Perm t.ids) (h : l = done ++ x :: rest) :
    x < t.size ∧ x ∉ done ∧ ∀ y ∈ done, y < t.size := by
  have hlt : ∀ y ∈ l, y < t.size := fun y hy => mem_ids.mp (hl.mem_iff.mp hy)
  have hnodup : (done ++ x :: rest).Nodup := by
    rw [← h]
    exact hl.nodup_iff.mpr List.nodup_range
  subst h
  refine ⟨hlt x (List.mem_append_right _ List.mem_cons_self), ?_,
    fun y hy => hlt y (List.mem_append_left _ hy)⟩
  intro hx
  exact (List.nodup_append.mp hnodup).2.2 x hx x List.mem_cons_self rfl

/-- **In the walk by levels the parent of the next node has been met.** -/
theorem parent_mem_of_breadthFirst (h : t.breadthFirst = done ++ x :: rest)
    (hp : t.parent? x = some p) : p ∈ done := by
  have horder := visitLevels_parents_first (t := t) (List.pairwise_singleton _ t.root)
  have hlt := lt_of_parent? hp
  have hmem : p ∈ t.breadthFirst := mem_breadthFirst.mpr (Nat.lt_trans hlt (lt_size_of_parent? hp))
  rw [← breadthFirst, h] at horder
  rw [h] at hmem
  exact mem_of_cut horder hmem (Nat.ne_of_lt hlt) (fun hne => hne hp)

/-- What the walk by levels has met so far is closed under parents. -/
theorem parent_mem_of_mem_breadthFirst (h : t.breadthFirst = done ++ rest) (hy : y ∈ done)
    (hp : t.parent? y = some p) : p ∈ done := by
  obtain ⟨before, after, rfl⟩ := List.append_of_mem hy
  rw [List.append_assoc, List.cons_append] at h
  exact List.mem_append_left _ (parent_mem_of_breadthFirst h hp)

/-- **In the walk in post-order the children of the next node have been met.** -/
theorem child_mem_of_postOrder {c : Nat} (h : t.postOrder t.root = done ++ x :: rest)
    (hc : t.parent? c = some x) : c ∈ done := by
  have horder : (t.postOrder t.root).Pairwise (fun a b => t.parent? b ≠ some a) := by
    rw [postOrder, List.pairwise_reverse, known_of_lt t.root_lt_size]
    exact visitFromRight_parents_first (List.pairwise_singleton _ t.root)
  have hmem : c ∈ t.postOrder t.root := mem_postOrder_root.mpr (lt_size_of_parent? hc)
  rw [h] at horder hmem
  exact mem_of_cut horder hmem (Nat.ne_of_gt (lt_of_parent? hc)) (fun hne => hne hc)

/-! ## The nodes a list speaks for -/

/-- Some node of a list speaks for `i`. -/
def SpokenFor (t : Tree) (paired : Nat → Bool) (done : List Nat) (i : Nat) : Prop :=
  ∃ y ∈ done, t.SpeaksFor paired y i

theorem not_spokenFor_nil : ¬ t.SpokenFor paired [] i := by
  rintro ⟨y, hy, -⟩
  cases hy

theorem spokenFor_concat :
    t.SpokenFor paired (done ++ [x]) i ↔ t.SpokenFor paired done i ∨ t.SpeaksFor paired x i := by
  constructor
  · rintro ⟨y, hy, h⟩
    rcases List.mem_append.mp hy with hy | hy
    · exact Or.inl ⟨y, hy, h⟩
    · rw [List.mem_singleton.mp hy] at h
      exact Or.inr h
  · rintro (⟨y, hy, h⟩ | h)
    · exact ⟨y, List.mem_append_left _ hy, h⟩
    · exact ⟨x, List.mem_append_right _ (List.mem_singleton.mpr rfl), h⟩

/-- A node that has not been met speaks for nodes that have not been spoken for. -/
theorem not_spokenFor (hx : x < t.size) (hdone : ∀ y ∈ done, y < t.size) (hnew : x ∉ done)
    (h : t.SpeaksFor paired x i) : ¬ t.SpokenFor paired done i := by
  rintro ⟨y, hy, hyi⟩
  rw [hyi.unique (hdone y hy) hx h] at hy
  exact hnew hy

theorem spokenFor_lt_size (hdone : ∀ y ∈ done, y < t.size) (h : t.SpokenFor paired done i) :
    i < t.size := by
  obtain ⟨y, hy, hyi⟩ := h
  exact hyi.within.lt_size (hdone y hy)

/-- A walk over all nodes speaks for all nodes. -/
theorem spokenFor_iff_lt_size {l : List Nat} (hl : l.Perm t.ids) :
    t.SpokenFor paired l i ↔ i < t.size := by
  constructor
  · intro h
    exact spokenFor_lt_size (fun y hy => mem_ids.mp (hl.mem_iff.mp hy)) h
  · intro hi
    obtain ⟨y, hy, hyi⟩ := exists_speaksFor paired hi
    exact ⟨y, hl.mem_iff.mpr (mem_ids.mpr hy), hyi⟩

section closed

variable (hclosed : ∀ y ∈ done, ∀ p, t.parent? y = some p → p ∈ done)
include hclosed

theorem mem_of_within (h : t.Within y i) (hi : i ∈ done) : y ∈ done := by
  induction h with
  | refl => exact hi
  | step hp _ ih => exact ih (hclosed _ hi _ hp)

/-- A list that is closed under parents speaks for all its nodes. -/
theorem spokenFor_of_mem (hdone : ∀ y ∈ done, y < t.size) (hi : i ∈ done) :
    t.SpokenFor paired done i := by
  obtain ⟨y, -, hyi⟩ := exists_speaksFor paired (hdone i hi)
  exact ⟨y, mem_of_within hclosed hyi.within hi, hyi⟩

theorem SpokenFor.parent (h : t.SpokenFor paired done i) (hp : t.parent? i = some p) :
    t.SpokenFor paired done p := by
  obtain ⟨y, hy, hyi⟩ := h
  obtain ⟨z, hz, hzy⟩ := hyi.exists_parent hp
  exact ⟨z, mem_of_within hclosed hzy hy, hz⟩

end closed

/-- In the walk by levels the parent of the next node has been spoken for. -/
theorem spokenFor_parent_of_breadthFirst (h : t.breadthFirst = done ++ x :: rest)
    (hp : t.parent? x = some p) : t.SpokenFor paired done p := by
  obtain ⟨-, -, hdone⟩ := next_of_cut t.breadthFirst_perm_ids h
  refine spokenFor_of_mem ?_ hdone (parent_mem_of_breadthFirst h hp)
  intro y hy q hq
  exact parent_mem_of_mem_breadthFirst h hy hq

end Tree

end CallDelta

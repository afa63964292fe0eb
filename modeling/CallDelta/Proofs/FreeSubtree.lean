import CallDelta.Proofs.TreeTable
import CallDelta.Script.OfMapping

/-!
# Free subtrees

Some nodes of a tree are paired. A subtree without a paired node is free. A free subtree that is not
part of a larger one has a top (`Tree.IsTop`), and an edit script speaks about it only there. About
a node that is not in a free subtree it speaks at the node itself.

* `Tree.getD_freeMarks`: the marks made in one pass over a tree are at the free subtrees
* `Tree.exists_speaksFor`, `Tree.SpeaksFor.unique`: exactly one node speaks for each node
-/

namespace CallDelta

namespace Tree

variable {t : Tree} {paired : Nat → Bool} {i j p y z : Nat}

/-- Whether no node of a subtree is paired. -/
def isFree (t : Tree) (paired : Nat → Bool) (i : Nat) : Bool :=
  (t.preOrder i).all (fun j => !paired j)

/-- Whether a node lies directly below a node with a free subtree. -/
def belowFree (t : Tree) (paired : Nat → Bool) (i : Nat) : Bool :=
  (t.parent? i).any (t.isFree paired)

theorem isFree_iff (hi : i < t.size) :
    t.isFree paired i = true ↔ ∀ j, t.Within i j → paired j = false := by
  simp only [isFree, List.all_eq_true, mem_preOrder_iff, Bool.not_eq_true']
  exact ⟨fun h j hj => h j ⟨hi, hj⟩, fun h j hj => h j hj.2⟩

theorem isFree_eq_false_iff (hi : i < t.size) :
    t.isFree paired i = false ↔ ∃ j, t.Within i j ∧ paired j = true := by
  rw [← Bool.not_eq_true, isFree_iff hi]
  simp

/-- The subtrees inside a free subtree are free. -/
theorem isFree_of_within (hi : i < t.size) (h : t.isFree paired i = true) (hij : t.Within i j) :
    t.isFree paired j = true :=
  (isFree_iff (hij.lt_size hi)).mpr fun k hjk => (isFree_iff hi).mp h k (hij.trans hjk)

theorem paired_eq_false_of_isFree (hi : i < t.size) (h : t.isFree paired i = true) :
    paired i = false :=
  (isFree_iff hi).mp h i .refl

theorem isFree_eq_false_of_paired (hi : i < t.size) (h : paired i = true) :
    t.isFree paired i = false :=
  (isFree_eq_false_iff hi).mpr ⟨i, .refl, h⟩

theorem belowFree_iff :
    t.belowFree paired i = true ↔ ∃ p, t.parent? i = some p ∧ t.isFree paired p = true := by
  simp [belowFree, Option.any_eq_true]

/-! ## Marks -/

/-- A subtree is free if its top is not paired and the subtrees of the children are free. -/
theorem isFree_eq (hi : i < t.size) :
    t.isFree paired i = (!paired i && ((t.children i).map (t.isFree paired)).all id) := by
  unfold isFree
  rw [preOrder_eq_flatMap hi, List.all_cons, List.all_flatMap, List.all_map]
  rfl

/-- **The marks made from the last node to the first are at the free subtrees.** -/
theorem getD_freeMarks (hi : i < t.size) :
    (t.freeMarks paired).getD i false = t.isFree paired i := by
  induction i using induction_children (t := t) with
  | h i ih =>
    have hbelow : (t.children i).map ((t.freeMarks paired).getD · false) =
        (t.children i).map (t.isFree paired) :=
      List.map_congr_left fun c hc => ih c hc (lt_size_of_mem_children hc)
    rw [isFree_eq hi, ← hbelow]
    exact getD_tabulate _ _ hi

/-! ## Tops -/

/-- A free subtree that is not part of a larger one. -/
def IsTop (t : Tree) (paired : Nat → Bool) (i : Nat) : Prop :=
  t.isFree paired i = true ∧ t.belowFree paired i = false

theorem IsTop.parent_not_free (h : t.IsTop paired i) (hp : t.parent? i = some p) :
    t.isFree paired p = false := by
  cases hf : t.isFree paired p with
  | false => rfl
  | true =>
    have := belowFree_iff.mpr ⟨p, hp, hf⟩
    rw [h.2] at this
    cases this

/-- A free node under a node that is not free is a top. -/
theorem isTop_of_parent_not_free (hf : t.isFree paired i = true) (hp : t.parent? i = some p)
    (hpf : t.isFree paired p = false) : t.IsTop paired i := by
  refine ⟨hf, ?_⟩
  cases hb : t.belowFree paired i with
  | false => rfl
  | true =>
    obtain ⟨q, hq, hqf⟩ := belowFree_iff.mp hb
    rw [hp] at hq
    cases hq
    rw [hpf] at hqf
    cases hqf

/-- Each free node lies below a top. -/
theorem exists_top (hi : i < t.size) (hf : t.isFree paired i = true) :
    ∃ y, y < t.size ∧ t.IsTop paired y ∧ t.Within y i := by
  -- climb as long as the parent is free
  induction i using Nat.strongRecOn with
  | _ i ih =>
    cases hb : t.belowFree paired i with
    | false => exact ⟨i, hi, ⟨hf, hb⟩, .refl⟩
    | true =>
      obtain ⟨p, hp, hpf⟩ := belowFree_iff.mp hb
      have hlt := lt_of_parent? hp
      obtain ⟨y, hy, htop, hyp⟩ := ih p hlt (Nat.lt_trans hlt hi) hpf
      exact ⟨y, hy, htop, .step hp hyp⟩

/-- A top inside the subtree of a top is that top. -/
theorem IsTop.eq_of_within (hy : y < t.size) (hty : t.IsTop paired y) (htz : t.IsTop paired z)
    (h : t.Within y z) : z = y := by
  cases h with
  | refl => rfl
  | step hp hyp =>
    have hpf := isFree_of_within hy hty.1 hyp
    rw [htz.parent_not_free hp] at hpf
    cases hpf

/-! ## Speaking for a node -/

/-- Node `y` speaks for node `i`: it is `i` and not free, or it is the top of the free subtree of
`i`. -/
def SpeaksFor (t : Tree) (paired : Nat → Bool) (y i : Nat) : Prop :=
  (t.isFree paired y = false ∧ i = y) ∨ (t.IsTop paired y ∧ t.Within y i)

theorem SpeaksFor.within (h : t.SpeaksFor paired y i) : t.Within y i := by
  rcases h with ⟨-, rfl⟩ | ⟨-, h⟩
  · exact .refl
  · exact h

theorem SpeaksFor.isFree_eq (hy : y < t.size) (h : t.SpeaksFor paired y i) :
    t.isFree paired i = t.isFree paired y := by
  rcases h with ⟨-, rfl⟩ | ⟨htop, h⟩
  · rfl
  · rw [htop.1, isFree_of_within hy htop.1 h]

theorem speaksFor_iff_of_not_free (hf : t.isFree paired y = false) :
    t.SpeaksFor paired y i ↔ i = y := by
  simp [SpeaksFor, IsTop, hf]

theorem speaksFor_iff_of_isTop (htop : t.IsTop paired y) :
    t.SpeaksFor paired y i ↔ t.Within y i := by
  simp [SpeaksFor, htop, htop.1]

theorem not_speaksFor_of_belowFree (hf : t.isFree paired y = true)
    (hb : t.belowFree paired y = true) : ¬ t.SpeaksFor paired y i := by
  simp [SpeaksFor, IsTop, hf, hb]

/-- Who is not paired speaks for nodes that are not paired. -/
theorem SpeaksFor.paired_eq_false (hy : y < t.size) (hpaired : paired y = false)
    (h : t.SpeaksFor paired y i) : paired i = false := by
  rcases h with ⟨-, rfl⟩ | ⟨htop, h⟩
  · exact hpaired
  · exact paired_eq_false_of_isFree (h.lt_size hy) (isFree_of_within hy htop.1 h)

theorem exists_speaksFor (paired : Nat → Bool) (hi : i < t.size) :
    ∃ y, y < t.size ∧ t.SpeaksFor paired y i := by
  cases hf : t.isFree paired i with
  | false => exact ⟨i, hi, Or.inl ⟨hf, rfl⟩⟩
  | true =>
    obtain ⟨y, hy, htop, h⟩ := exists_top hi hf
    exact ⟨y, hy, Or.inr ⟨htop, h⟩⟩

/-- **No two nodes speak for one node.** -/
theorem SpeaksFor.unique (hy : y < t.size) (hz : z < t.size) (h₁ : t.SpeaksFor paired y i)
    (h₂ : t.SpeaksFor paired z i) : y = z := by
  have hfree : t.isFree paired y = t.isFree paired z :=
    (h₁.isFree_eq hy).symm.trans (h₂.isFree_eq hz)
  rcases h₁ with ⟨hfy, rfl⟩ | ⟨hty, hyi⟩ <;> rcases h₂ with ⟨hfz, rfl⟩ | ⟨htz, hzi⟩
  · rfl
  · rw [hfy, htz.1] at hfree
    cases hfree
  · rw [hfz, hty.1] at hfree
    cases hfree
  · -- of two tops above one node, one lies above the other
    rcases hyi.comparable hzi with h | h
    · exact (IsTop.eq_of_within hy hty htz h).symm
    · exact IsTop.eq_of_within hz htz hty h

/-- Who speaks for the parent of a node lies above who speaks for the node. -/
theorem SpeaksFor.exists_parent (h : t.SpeaksFor paired y i) (hp : t.parent? i = some p) :
    ∃ z, t.SpeaksFor paired z p ∧ t.Within z y := by
  by_cases hiy : i = y
  · have hlt : p < t.size := Nat.lt_trans (lt_of_parent? hp) (lt_size_of_parent? hp)
    obtain ⟨z, -, hz⟩ := exists_speaksFor paired hlt
    exact ⟨z, hz, hz.within.trans (hiy ▸ .of_parent? hp)⟩
  · rcases h with ⟨-, he⟩ | ⟨htop, hyi⟩
    · exact absurd he hiy
    · exact ⟨y, Or.inr ⟨htop, hyi.parent hp hiy⟩, .refl⟩

end Tree

end CallDelta

import CallDelta.Proofs.TreeTable
import CallDelta.Tree.Measure

/-!
# What the measures are

* `Tree.of_measures`: the measures of a node are those worked out from its children
* `Tree.height_lt_of_mem_children`: a child has the smaller height
* `Tree.size_measures`: the size of a node is the number of nodes in its subtree
-/

namespace CallDelta

namespace Tree

variable {t : Tree} {i c : Nat}

/-- **The measures of a node are those worked out from its children.** -/
theorem of_measures (hi : i < t.size) :
    t.measures.of i =
      .ofChildren (t.typeName i) (t.label? i) ((t.children i).map t.measures.of) :=
  getD_tabulate _ _ hi

/-! ## Heights -/

theorem le_foldl_max (ns : List Nat) : ∀ a, a ≤ ns.foldl max a ∧ ∀ n ∈ ns, n ≤ ns.foldl max a := by
  induction ns with
  | nil => exact fun a => ⟨Nat.le_refl a, fun n hn => by cases hn⟩
  | cons m ns ih =>
    intro a
    obtain ⟨hmax, hrest⟩ := ih (max a m)
    rw [List.foldl_cons]
    refine ⟨Nat.le_trans (Nat.le_max_left a m) hmax, fun n hn => ?_⟩
    rcases List.mem_cons.mp hn with rfl | hn
    · exact Nat.le_trans (Nat.le_max_right a n) hmax
    · exact hrest n hn

theorem height_lt_of_mem_children (hc : c ∈ t.children i) :
    (t.measures.of c).height < (t.measures.of i).height := by
  have hi : i < t.size := Nat.lt_trans (lt_of_mem_children hc) (lt_size_of_mem_children hc)
  have hmem : (t.measures.of c).height ∈
      ((t.children i).map t.measures.of).map (·.height) :=
    List.mem_map_of_mem (List.mem_map_of_mem hc)
  rw [of_measures hi, Measure.ofChildren]
  have := (le_foldl_max _ 0).2 _ hmem
  show _ < 1 + _
  omega

/-! ## Sizes -/

theorem length_flatMap_eq_sumOf {α : Type} (f : Nat → List α) (is : List Nat) :
    (is.flatMap f).length = sumOf (is.map fun i => (f i).length) := by
  induction is with
  | nil => rfl
  | cons i is ih => simp [List.flatMap_cons, ih]

/-- **The size of a node is the number of nodes in its subtree.** -/
theorem size_measures (hi : i < t.size) : (t.measures.of i).size = (t.preOrder i).length := by
  induction i using induction_children (t := t) with
  | h i ih =>
    have hbelow : (t.children i).map (fun c => (t.measures.of c).size) =
        (t.children i).map (fun c => (t.preOrder c).length) :=
      List.map_congr_left fun c hc => ih c hc (lt_size_of_mem_children hc)
    rw [of_measures hi, preOrder_eq_flatMap hi, List.length_cons, length_flatMap_eq_sumOf, ← hbelow,
      Nat.add_comm]
    simp [Measure.ofChildren, Function.comp_def]

theorem length_descendants (hi : i < t.size) :
    (t.descendants i).length = (t.measures.of i).size - 1 := by
  rw [size_measures hi, descendants, List.length_tail]

end Tree

end CallDelta

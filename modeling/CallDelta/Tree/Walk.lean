import CallDelta.Sum
import CallDelta.Tree.Basic

/-!
# Walks over a tree

* Downward, a walk keeps a list of nodes still to visit and puts the children of each visited node
  in front of it (`preOrder`, and `postOrder` as the reversal of the walk from right to left) or
  behind it (`breadthFirst`).
* Upward, a walk follows the parents (`ancestors`, `isAncestor`, `depth`).

## Why the walks end

Upward the numbers fall. Downward each step visits one node, so the number of nodes in the subtrees
of the nodes still to visit (`pending`) falls by one.
-/

namespace CallDelta

namespace Tree

variable (t : Tree)

/-! ## The nodes below a node -/

/-- The number of nodes in the subtree of `i`, counting `i`. -/
def subtreeSize (i : Nat) : Nat :=
  1 + sumOf ((t.children i).attach.map (fun c => subtreeSize c.1))
termination_by t.size - i
decreasing_by
  have h₁ := lt_of_mem_children c.2
  have h₂ := lt_size_of_mem_children c.2
  omega

theorem subtreeSize_eq (i : Nat) :
    t.subtreeSize i = 1 + sumOf ((t.children i).map t.subtreeSize) := by
  conv => rhs; rw [← List.attach_map_subtype_val (t.children i), List.map_map]
  rw [subtreeSize]
  rfl

/-- The number of nodes in the subtrees of a list of nodes. -/
def pending (stack : List Nat) : Nat := sumOf (stack.map t.subtreeSize)

theorem pending_cons (i : Nat) (rest : List Nat) :
    t.pending (i :: rest) = 1 + t.pending (t.children i) + t.pending rest := by
  simp [pending, subtreeSize_eq t i]

theorem pending_append (xs ys : List Nat) :
    t.pending (xs ++ ys) = t.pending xs + t.pending ys := by
  simp [pending]

theorem pending_reverse (xs : List Nat) : t.pending xs.reverse = t.pending xs := by
  simp [pending]

/-! ## Downward -/

/-- Visits the subtrees of a list of nodes one after the other, each node before its children and
the children from left to right. -/
def visit : List Nat → List Nat
  | [] => []
  | i :: rest => i :: visit (t.children i ++ rest)
termination_by stack => t.pending stack
decreasing_by
  rw [pending_cons, pending_append]
  omega

/-- As `visit`, with the children from right to left. -/
def visitFromRight : List Nat → List Nat
  | [] => []
  | i :: rest => i :: visitFromRight ((t.children i).reverse ++ rest)
termination_by stack => t.pending stack
decreasing_by
  rw [pending_cons, pending_append, pending_reverse]
  omega

/-- Visits a list of nodes, then their children, then the children's children, and so on. -/
def visitLevels : List Nat → List Nat
  | [] => []
  | i :: rest => i :: visitLevels (rest ++ t.children i)
termination_by queue => t.pending queue
decreasing_by
  rw [pending_cons, pending_append]
  omega

/-- The node alone, or nothing for an unknown number. -/
def known (i : Nat) : List Nat := if i < t.size then [i] else []

/-- The subtree of a node, each node before its children and the children from left to right. -/
def preOrder (i : Nat) : List Nat := t.visit (t.known i)

/-- The subtree of a node, each node after its children and the children from left to right. -/
def postOrder (i : Nat) : List Nat := (t.visitFromRight (t.known i)).reverse

/-- The whole tree, level by level. -/
def breadthFirst : List Nat := t.visitLevels [t.root]

/-- The proper descendants of a node in pre-order. -/
def descendants (i : Nat) : List Nat := (t.preOrder i).tail

/-! ## Upward -/

/-- The parent of a node, the parent's parent, and so on up to the root. -/
def ancestors (i : Nat) : List Nat :=
  match _hp : t.parent? i with
  | none => []
  | some p => p :: ancestors p
termination_by i
decreasing_by exact lt_of_parent? _hp

/-- Whether `a` is a proper ancestor of `i`. The climb stops at the first number below `a`, for
everything above it is smaller still. -/
def isAncestor (a i : Nat) : Bool :=
  match _hp : t.parent? i with
  | none => false
  | some p => p == a || (decide (a < p) && isAncestor a p)
termination_by i
decreasing_by exact lt_of_parent? _hp

theorem ancestors_eq (i : Nat) :
    t.ancestors i = match t.parent? i with
      | none => []
      | some p => p :: t.ancestors p := by
  rw [ancestors]
  split <;> simp_all

/-- Ancestors have smaller numbers. -/
theorem lt_of_mem_ancestors {t : Tree} {a i : Nat} (h : a ∈ t.ancestors i) : a < i := by
  induction i using Nat.strongRecOn with
  | _ i ih =>
    rw [ancestors_eq] at h
    cases hp : t.parent? i with
    | none => simp [hp] at h
    | some p =>
      have hlt := lt_of_parent? hp
      simp only [hp, List.mem_cons] at h
      rcases h with rfl | h
      · exact hlt
      · exact Nat.lt_trans (ih p hlt h) hlt

/-- Ancestors are nodes. -/
theorem lt_size_of_mem_ancestors {t : Tree} {a i : Nat} (h : a ∈ t.ancestors i) : a < t.size := by
  have hlt := lt_of_mem_ancestors h
  rw [ancestors_eq] at h
  cases hp : t.parent? i with
  | none => simp [hp] at h
  | some p => exact Nat.lt_trans hlt (lt_size_of_parent? hp)

/-- No node occurs twice among the ancestors of another. -/
theorem count_ancestors (a i : Nat) :
    (t.ancestors i).count a = if t.isAncestor a i then 1 else 0 := by
  induction i using Nat.strongRecOn with
  | _ i ih =>
    rw [ancestors_eq, isAncestor]
    cases hp : t.parent? i with
    | none => simp
    | some p =>
      have hlt := lt_of_parent? hp
      by_cases hpa : p = a
      · subst hpa
        have hnot : p ∉ t.ancestors p := fun h => Nat.lt_irrefl _ (lt_of_mem_ancestors h)
        simp [List.count_eq_zero_of_not_mem hnot]
      · by_cases hap : a < p
        · simp [hpa, hap, ih p hlt]
        · have hnot : a ∉ t.ancestors p := fun h => hap (lt_of_mem_ancestors h)
          simp [hpa, hap, List.count_eq_zero_of_not_mem hnot]

/-- How many ancestors a node has. -/
def depth (i : Nat) : Nat := (t.ancestors i).length

end Tree

end CallDelta

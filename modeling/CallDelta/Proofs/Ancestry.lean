import CallDelta.Proofs.Subtree
import Mathlib.Data.List.Nodup
import Mathlib.Logic.Relation

/-!
# Ancestors

`Tree.Above` says that a node is on the chain of parents of another. The climb that looks for an
ancestor stops at the first number below it, and the walk downward keeps a stack; both find the
chain.

* `Tree.above_iff_within`: a node is above the nodes of its subtree, itself apart
* `Tree.isAncestor_iff_above`: stopping early loses no ancestor, because numbers fall upward
* `Tree.ancestors_perm_filter`: the climb passes each ancestor once
-/

namespace CallDelta

namespace Tree

variable {t : Tree} {a i : Nat}

/-- Node `a` is on the chain of parents of `i`. -/
def Above (t : Tree) (a i : Nat) : Prop := Relation.TransGen (fun p c => t.parent? c = some p) a i

theorem above_iff_within : t.Above a i ↔ t.Within a i ∧ a ≠ i := by
  constructor
  · intro h
    induction h with
    | single hp => exact ⟨.of_parent? hp, Nat.ne_of_lt (lt_of_parent? hp)⟩
    | tail _ hp ih =>
      exact ⟨.step hp ih.1, Nat.ne_of_lt (Nat.lt_of_le_of_lt ih.1.le (lt_of_parent? hp))⟩
  · rintro ⟨h, hne⟩
    induction h with
    | refl => exact absurd rfl hne
    | @step i p hp _ ih =>
      by_cases hap : a = p
      · exact .single (hap ▸ hp)
      · exact (ih hap).tail hp

/-- Where the climb stops early, all numbers above are smaller, so that it loses nothing. -/
theorem isAncestor_iff_above : t.isAncestor a i = true ↔ t.Above a i := by
  rw [← mem_ancestors_iff_isAncestor, mem_ancestors_iff, above_iff_within]

theorem ancestors_nodup (t : Tree) (i : Nat) : (t.ancestors i).Nodup := by
  refine List.nodup_iff_count_le_one.mpr ?_
  intro a
  rw [count_ancestors]
  split <;> omega

/-- **A climb to the root passes the ancestors of a node, each once.** -/
theorem ancestors_perm_filter (t : Tree) (i : Nat) :
    (t.ancestors i).Perm (t.ids.filter (fun a => t.isAncestor a i)) := by
  refine (List.perm_ext_iff_of_nodup (t.ancestors_nodup i) (List.nodup_range.filter _)).mpr ?_
  intro a
  rw [List.mem_filter, ← mem_ancestors_iff_isAncestor, List.mem_range]
  exact ⟨fun h => ⟨lt_size_of_mem_ancestors h, h⟩, fun h => h.2⟩

/-- **For any numbers `a` and `i`, known or not, the climb from `i` finds `a` exactly if `a` is on
the chain of parents of `i`, and exactly if `a` is a node and `i` one of its descendants. The depth
of `i` is the number of nodes that climbs from `i` find.** -/
theorem isAncestor_finds_chain (t : Tree) (a i : Nat) :
    (t.isAncestor a i = true ↔ t.Above a i) ∧
      (t.isAncestor a i = true ↔ a < t.size ∧ i ∈ t.descendants a) ∧
      t.depth i = (t.ids.filter (fun b => t.isAncestor b i)).length := by
  refine ⟨isAncestor_iff_above, ?_, (t.ancestors_perm_filter i).length_eq⟩
  rw [isAncestor_iff_mem_descendants]
  exact ⟨fun h => ⟨(mem_descendants_iff.mp h).1, h⟩, fun h => h.2⟩

end Tree

end CallDelta

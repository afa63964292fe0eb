import CallDelta.Proofs.Subtree
import CallDelta.Tree.Table

/-!
# What stands in a table over a tree

A table is filled from the last node to the first. When a node is reached, its children have been
done and are not touched again, so that the finished table is a solution of the equations by which
it was filled.

* `Tree.getD_tabulate`: the entry of a node is the one worked out from the entries of its children
-/

namespace CallDelta

variable {β : Type}

theorem getD_setIfInBounds (table : Array β) (blank : β) (i j : Nat) (v : β) :
    (table.setIfInBounds i v).getD j blank =
      if i = j ∧ i < table.size then v else table.getD j blank := by
  rw [Array.getD_eq_getD_getElem?, Array.getElem?_setIfInBounds, Array.getD_eq_getD_getElem?]
  by_cases hij : i = j
  · subst hij
    by_cases hi : i < table.size
    · simp [hi]
    · simp [hi]
  · simp [hij]

namespace Tree

variable {t : Tree} {blank : β} {entry : Nat → List β → β} {i : Nat}

/-- The entry of node `i` where those of its children stand in the table. -/
def entryWith (t : Tree) (blank : β) (entry : Nat → List β → β) (table : Array β) (i : Nat) : β :=
  entry i ((t.children i).map (table.getD · blank))

/-- The table after the nodes of a list have been done, the last one first. -/
def fill (t : Tree) (blank : β) (entry : Nat → List β → β) (is : List Nat) : Array β :=
  is.foldr (fun i table => table.setIfInBounds i (t.entryWith blank entry table i))
    (Array.replicate t.size blank)

theorem tabulate_eq_fill (t : Tree) (blank : β) (entry : Nat → List β → β) :
    t.tabulate blank entry = t.fill blank entry (List.range' 0 t.size) := by
  rw [← List.range_eq_range']
  rfl

theorem fill_cons (t : Tree) (i : Nat) (is : List Nat) :
    t.fill blank entry (i :: is) = (t.fill blank entry is).setIfInBounds i
      (t.entryWith blank entry (t.fill blank entry is) i) := rfl

theorem size_fill (t : Tree) (is : List Nat) : (t.fill blank entry is).size = t.size := by
  induction is with
  | nil => simp [fill]
  | cons i is ih => rw [fill_cons, Array.size_setIfInBounds, ih]

/-- Only the children of a node matter for its entry. -/
theorem entryWith_congr {table table' : Array β}
    (h : ∀ c ∈ t.children i, table.getD c blank = table'.getD c blank) :
    t.entryWith blank entry table i = t.entryWith blank entry table' i := by
  unfold entryWith
  rw [List.map_congr_left h]

/-- Doing a node changes its own entry only. -/
theorem getD_fill_cons (hi : i < t.size) (is : List Nat) (j : Nat) :
    (t.fill blank entry (i :: is)).getD j blank =
      if i = j then t.entryWith blank entry (t.fill blank entry is) i
      else (t.fill blank entry is).getD j blank := by
  have hsize : i < (t.fill blank entry is).size := by
    rw [size_fill]
    exact hi
  rw [fill_cons, getD_setIfInBounds]
  simp [hsize]

/-- Where the nodes from `k` on have been done, their entries fit together. -/
theorem getD_fill (t : Tree) (n : Nat) : ∀ k, k + n = t.size → ∀ i, k ≤ i → i < t.size →
    (t.fill blank entry (List.range' k n)).getD i blank =
      t.entryWith blank entry (t.fill blank entry (List.range' k n)) i := by
  induction n with
  | zero =>
    intro k hk i hki hi
    omega
  | succ n ih =>
    intro k hk i hki hi
    have hk' : k < t.size := by omega
    rw [List.range'_succ]
    -- the entry of `k` is not read for the nodes from `k` on, whose children come later
    have hkeep : t.entryWith blank entry (t.fill blank entry (k :: List.range' (k + 1) n)) i =
        t.entryWith blank entry (t.fill blank entry (List.range' (k + 1) n)) i := by
      refine entryWith_congr fun c hc => ?_
      have := lt_of_mem_children hc
      rw [getD_fill_cons hk', if_neg (by omega)]
    rw [hkeep, getD_fill_cons hk']
    by_cases hik : k = i
    · rw [if_pos hik, hik]
    · rw [if_neg hik]
      exact ih (k + 1) (by omega) i (by omega) hi

/-- **The entry of a node is the one worked out from the entries of its children.** -/
theorem getD_tabulate (blank : β) (entry : Nat → List β → β) (hi : i < t.size) :
    (t.tabulate blank entry).getD i blank =
      entry i ((t.children i).map ((t.tabulate blank entry).getD · blank)) := by
  rw [tabulate_eq_fill]
  exact t.getD_fill t.size 0 (Nat.zero_add _) i (Nat.zero_le i) hi

end Tree

end CallDelta

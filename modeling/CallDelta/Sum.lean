/-!
# Sums of natural numbers
-/

namespace CallDelta

/-- The sum of a list of natural numbers. -/
def sumOf (ns : List Nat) : Nat := ns.foldr Nat.add 0

@[simp] theorem sumOf_nil : sumOf [] = 0 := rfl

@[simp] theorem sumOf_cons (n : Nat) (ns : List Nat) : sumOf (n :: ns) = n + sumOf ns := rfl

@[simp] theorem sumOf_append (ms ns : List Nat) : sumOf (ms ++ ns) = sumOf ms + sumOf ns := by
  induction ms with
  | nil => simp
  | cons m ms ih => simp [ih, Nat.add_assoc]

@[simp] theorem sumOf_reverse (ns : List Nat) : sumOf ns.reverse = sumOf ns := by
  induction ns with
  | nil => rfl
  | cons n ns ih => simp [ih, Nat.add_comm]

theorem sumOf_map_add_one {α : Type} (f : α → Nat) (xs : List α) :
    sumOf (xs.map fun x => f x + 1) = xs.length + sumOf (xs.map f) := by
  induction xs with
  | nil => rfl
  | cons x xs ih =>
    simp only [List.map_cons, sumOf_cons, List.length_cons, ih]
    omega

theorem sumOf_eq_zero_iff {ns : List Nat} : sumOf ns = 0 ↔ ∀ n ∈ ns, n = 0 := by
  induction ns with
  | nil => simp
  | cons n ns ih => simp [ih]

end CallDelta

/-!
# Tallies

A tally says of each number below a bound how often it occurs in a list. It is made in one pass over
the list.
-/

namespace CallDelta

/-- How often each number occurs, by number. -/
abbrev Tally : Type := Array Nat

namespace Tally

/-- One more occurrence. -/
def add (t : Tally) (i : Nat) : Tally := t.modify i (· + 1)

/-- The tally of the numbers below `bound` in a list. -/
def ofList (bound : Nat) (is : List Nat) : Tally := is.foldl add (Array.replicate bound 0)

/-- The occurrences of a number. -/
def of (t : Tally) (i : Nat) : Nat := t.getD i 0

@[simp] theorem size_add (t : Tally) (i : Nat) : (t.add i).size = t.size := by
  simp [add]

theorem of_add (t : Tally) (i j : Nat) (h : j < t.size) :
    (t.add i).of j = t.of j + if i = j then 1 else 0 := by
  have h' : j < (t.modify i (· + 1)).size := by simpa using h
  simp only [of, add, Array.getD_eq_getD_getElem?, Array.getElem?_eq_getElem h,
    Array.getElem?_eq_getElem h', Array.getElem_modify, Option.getD_some]
  by_cases hij : i = j <;> simp [hij]

theorem of_foldl_add (is : List Nat) (t : Tally) (j : Nat) (h : j < t.size) :
    (is.foldl add t).of j = t.of j + is.count j := by
  induction is generalizing t with
  | nil => simp
  | cons i is ih =>
    rw [List.foldl_cons, ih _ (by simpa using h), of_add t i j h, List.count_cons]
    by_cases hij : i = j
    · simp [hij, Nat.add_assoc, Nat.add_comm]
    · simp [hij]

/-- A tally counts. -/
theorem of_ofList {bound j : Nat} (is : List Nat) (h : j < bound) :
    (ofList bound is).of j = is.count j := by
  rw [ofList, of_foldl_add _ _ _ (by simpa using h)]
  simp [of, h]

end Tally

end CallDelta

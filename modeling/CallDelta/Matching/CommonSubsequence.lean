/-!
# Longest common subsequences

The longest common subsequence of two lists under a relation, as the list of related pairs. The
relation need not be an equivalence.

First the lengths are worked out, for each pair of tails. The lengths for one tail on the left and
all tails on the right form a row, and a row is worked out from the row below it. Then the table is
walked from its first corner: over a related pair it goes down and to the right, and otherwise to
where the length is kept.
-/

namespace CallDelta

variable {α β : Type}

/-! ## The table of lengths -/

/-- The lengths for a list that starts with `a`, one for each tail of the list on the right. The
third argument is the row below, that is the lengths without `a`. -/
def lengthRow (related : α → β → Bool) (a : α) : List β → List Nat → List Nat
  | b :: bs, below :: diagonal :: rest =>
    let row := lengthRow related a bs (diagonal :: rest)
    let here := if related a b then diagonal + 1 else max below (row.headD 0)
    here :: row
  | _, _ => [0]

/-- The lengths for all tails of both lists, a row for each tail on the left. -/
def lengthTable (related : α → β → Bool) (left : List α) (right : List β) : List (List Nat) :=
  left.foldr (fun a rows => lengthRow related a right (rows.headD []) :: rows)
    [List.replicate (right.length + 1) 0]

/-! ## The walk -/

/-- The walk from column `j` of a row, where `bs` is what is left on the right and `next` is the
walk from the row below. -/
def walkRow (related : α → β → Bool) (a : α) (row below : List Nat)
    (next : Nat → List β → List (α × β)) : Nat → List β → List (α × β)
  | j, b :: bs =>
    if row.getD j 0 = below.getD (j + 1) 0 + 1 ∧ related a b then (a, b) :: next (j + 1) bs
    else if row.getD (j + 1) 0 ≤ below.getD j 0 then next j (b :: bs)
    else walkRow related a row below next (j + 1) bs
  | _, [] => []

/-- The walk through a table from column `j` of its first row. -/
def walkTable (related : α → β → Bool) : List α → List (List Nat) → Nat → List β → List (α × β)
  | a :: as, row :: below :: rows, j, bs =>
    walkRow related a row below (walkTable related as (below :: rows)) j bs
  | _, _, _, _ => []

/-- The longest common subsequence of two lists, as pairs. Where the heads are not related, the head
on the left is skipped unless skipping the one on the right gives more. -/
def commonSubsequence (related : α → β → Bool) (left : List α) (right : List β) : List (α × β) :=
  walkTable related left (lengthTable related left right) 0 right

end CallDelta

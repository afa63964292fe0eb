/-!
# Rose trees

A rose tree is a value with a list of rose trees below it. Syntax is written down as a rose tree
first and numbered afterwards, which keeps the rules about shape apart from the rules about numbers.
Where values are listed in pre-order with their depths, `Rose.ofListing` puts them together.
-/

namespace CallDelta

/-- A value with a list of rose trees below it. -/
inductive Rose (α : Type) where
  | node (value : α) (children : List (Rose α))

namespace Rose

variable {α : Type}

/-- The value at the top. -/
def value : Rose α → α
  | node a _ => a

/-- The rose trees directly below the top. -/
def children : Rose α → List (Rose α)
  | node _ rs => rs

/-- A value with nothing below it. -/
def leaf (a : α) : Rose α := node a []

/-- Puts a value of a depth in front of a forest: what is deeper at the front of the forest is below
the value. -/
def attach (row : Nat × α) (forest : List (Nat × Rose α)) : List (Nat × Rose α) :=
  let below := forest.takeWhile (fun r => row.1 < r.1)
  let after := forest.dropWhile (fun r => row.1 < r.1)
  (row.1, node row.2 (below.map Prod.snd)) :: after

/-- The rose trees of a listing in pre-order. Each value comes with its depth. -/
def ofListing (rows : List (Nat × α)) : List (Rose α) := (rows.foldr attach []).map Prod.snd

end Rose

end CallDelta

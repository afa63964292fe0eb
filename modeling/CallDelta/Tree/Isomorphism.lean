import CallDelta.Tree.Basic

/-!
# Equal subtrees

Two nodes are isomorphic if the subtrees below them have the same type names and labels in the same
shape. Kinds, spans and numbers do not matter.
-/

namespace CallDelta

/-- Whether the subtree of `s` in `src` and the subtree of `d` in `dst` are equal in type names,
labels and shape. Unknown numbers are isomorphic to nothing. -/
def isomorphic (src : Tree) (s : Nat) (dst : Tree) (d : Nat) : Bool :=
  match src.get? s, dst.get? d with
  | some a, some b =>
    a.typeName == b.typeName && a.label == b.label &&
      (src.children s).length == (dst.children d).length &&
      ((src.children s).zip (dst.children d)).attach.all
        (fun pair => isomorphic src pair.1.1 dst pair.1.2)
  | _, _ => false
termination_by src.size - s
decreasing_by
  have hmem : pair.val.1 ∈ src.children s := (List.of_mem_zip pair.2).1
  have h₁ : s < pair.val.1 := Tree.lt_of_mem_children hmem
  have h₂ : pair.val.1 < src.size := Tree.lt_size_of_mem_children hmem
  omega

end CallDelta

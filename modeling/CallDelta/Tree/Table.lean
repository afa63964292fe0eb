import CallDelta.Tree.Basic

/-!
# Tables over a tree

What is known of a node from what is known of its children is worked out for a whole tree in one
pass from the last node to the first, so that the children of a node are always done before the
node.
-/

namespace CallDelta

variable {β : Type}

namespace Tree

/-- The table with an entry for each node of a tree. The entry of a node is worked out from those of
its children, and `blank` is read where nothing has been written yet. -/
def tabulate (t : Tree) (blank : β) (entry : Nat → List β → β) : Array β :=
  t.ids.foldr
    (fun i table => table.setIfInBounds i (entry i ((t.children i).map (table.getD · blank))))
    (Array.replicate t.size blank)

end Tree

end CallDelta

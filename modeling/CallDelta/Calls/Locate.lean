import CallDelta.Tree.Walk

/-!
# Located calls

The calls of a subtree are its call nodes that do not lie inside another call of the subtree. They
are found by a walk that does not go below a call.
-/

namespace CallDelta

namespace Tree

variable (t : Tree)

/-- Whether a node is a call. -/
def isCall (i : Nat) : Bool := t.kind? i == some .callExpression

/-- The calls in the subtrees of a list of nodes. A call is taken, and what lies below it is left
out.
-/
def visitCalls : List Nat → List Nat
  | [] => []
  | i :: rest => if t.isCall i then i :: visitCalls rest else visitCalls (t.children i ++ rest)
termination_by stack => t.pending stack
decreasing_by
  · rw [pending_cons]
    omega
  · rw [pending_cons, pending_append]
    omega

/-- The calls in the subtree of a node, in pre-order. Without a node, or for an unknown number,
there are none. -/
def locateCalls (start : Option Nat) : List Nat :=
  match start with
  | none => []
  | some i => t.visitCalls (t.known i)

end Tree

end CallDelta

import CallDelta.Tree.Walk

/-!
# Outlines

An outline shows a tree one node a line, in pre-order, with two blanks of indentation for each
level: the type name, then the label and the span if the node has them.
-/

namespace CallDelta

/-- A node on a line of its own, without indentation. -/
def NodeData.text (n : NodeData) : String :=
  n.typeName ++ (n.label.elim "" (": " ++ ·)) ++ (n.span.elim "" (" " ++ ·.text))

namespace Tree

/-- The line of a node. -/
def outlineLine (t : Tree) (i : Nat) : String :=
  "".pushn ' ' (2 * t.depth i) ++ ((t.get? i).elim "" (·.toNodeData.text)) ++ "\n"

/-- The whole tree, one node a line. -/
def outline (t : Tree) : String := String.join ((t.preOrder t.root).map t.outlineLine)

end Tree

end CallDelta

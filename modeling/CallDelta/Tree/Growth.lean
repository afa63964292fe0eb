import CallDelta.Rose
import CallDelta.Tree.Basic

/-!
# Growing trees from rose trees

`Tree.graft` puts a rose tree below a node and numbers its nodes in pre-order. Identifiers and calls
are rose trees of a fixed shape, so they are grafted too. A `GrowthStep` is one step in building a
tree by hand; a step below a node that is not there fails and leaves the tree as it was.
-/

namespace CallDelta

/-- An identifier: a wrapper around one token with the spelling. -/
def identifierRose (name : String) (span : Option Span) : Rose NodeData :=
  .node { kind := .identifierWrapper, typeName := "identifier", span }
    [.leaf { kind := .tokenLeaf, typeName := "token", label := some name, span }]

/-- A call: the callee and the arguments below one node. -/
def callRose (operands : List (Rose NodeData)) (span : Option Span) : Rose NodeData :=
  .node { kind := .callExpression, typeName := "call_expression", span } operands

namespace Tree

mutual

/-- Puts a rose tree below `parent`, as its last child. -/
def graft (t : Tree) (parent : Nat) : Rose NodeData → Tree
  | .node data rs => graftAll (t.add parent data) t.size rs

/-- Puts rose trees below `parent`, one after the other. -/
def graftAll (t : Tree) (parent : Nat) : List (Rose NodeData) → Tree
  | [] => t
  | r :: rs => graftAll (graft t parent r) parent rs

end

/-- The tree of a rose tree, numbered in pre-order. -/
def ofRose : Rose NodeData → Tree
  | .node data rs => graftAll (single data) 0 rs

/-- As `graft`, for a parent that is there. -/
def graft? (t : Tree) (parent : Nat) (r : Rose NodeData) : Option Tree :=
  if parent < t.size then some (t.graft parent r) else none

end Tree

/-- One step in building a tree by hand. -/
inductive GrowthStep where
  /-- A node below `parent`. -/
  | add (parent : Nat) (data : NodeData)
  /-- An identifier below `parent`. -/
  | identifier (parent : Nat) (name : String)
  /-- A call of an identifier with identifiers as arguments, below `parent`. -/
  | call (parent : Nat) (callee : String) (arguments : List String)

namespace GrowthStep

/-- The tree after a step. The node that the step is about has the old size as its number. -/
def perform? (t : Tree) : GrowthStep → Option Tree
  | add parent data => t.add? parent data
  | identifier parent name => t.graft? parent (identifierRose name none)
  | call parent callee arguments =>
    t.graft? parent
      (callRose ((callee :: arguments).map (fun name => identifierRose name none)) none)

end GrowthStep

/-- Takes the steps in order. Beside the tree stands, for each step, the number of its node or
nothing if it failed. -/
def Tree.run (t : Tree) : List GrowthStep → List (Option Nat) × Tree
  | [] => ([], t)
  | step :: steps =>
    match step.perform? t with
    | some t' => let (ids, last) := t'.run steps; (some t.size :: ids, last)
    | none => let (ids, last) := t.run steps; (none :: ids, last)

end CallDelta

import CallDelta.Calls.Locate
import CallDelta.Script.OfMapping

/-!
# What edit actions mean for calls

An inserted or deleted subtree carries the calls located in it. An updated token is a renamed callee
if it stands in the first child of a call. Everything else says nothing about calls.
-/

namespace CallDelta

/-- What one action means for calls. -/
inductive Classification where
  /-- Calls inside an inserted or deleted subtree. There is at least one. -/
  | calls (nodes : List Nat)
  /-- A callee with another name. -/
  | rename (oldName newName : String)
  /-- Nothing. -/
  | ignore
  deriving DecidableEq

/-- A fact about calls, tied to the action that it comes from. Actions are counted from 0. -/
inductive ChangeEvent where
  /-- A call inside the subtree of an action's node. -/
  | call (index : Nat) (action : ActionKind) (node : Nat) (callNode : Nat)
  /-- A callee with another name. -/
  | rename (index : Nat) (node : Nat) (oldName newName : String)
  deriving DecidableEq

namespace Tree

/-- Whether a token stands in the first child of a call. Arguments have the call as their
grandparent too, but not in this place. -/
def isCalleeToken (t : Tree) (i : Nat) : Bool :=
  (t.parent? i).any (fun wrapper =>
    (t.parent? wrapper).any (fun call =>
      t.isCall call && (t.children call).head? == some wrapper))

/-- The calls located below a node, if there are any. -/
def classifyCalls (t : Tree) (node : Nat) : Classification :=
  match t.locateCalls (some node) with
  | [] => .ignore
  | calls => .calls calls

/-- What a change of a label means. -/
def classifyUpdate (t : Tree) (node : Nat) : Option String → Classification
  | some newName =>
    if t.isCalleeToken node then .rename ((t.label? node).getD "") newName else .ignore
  | none => .ignore

end Tree

/-- What an action means for calls. -/
def Action.classify (trees : TreePair) (action : Action) : Classification :=
  match action with
  | .insertTree node .. | .insertNode node .. | .deleteTree node =>
    (trees.side action.side).classifyCalls node
  | .updateNode node newLabel => (trees.side action.side).classifyUpdate node newLabel
  | .deleteNode _ | .move .. => .ignore

/-- The facts that follow from an action, given its place in the script. -/
def Action.events (trees : TreePair) (action : Action) (index : Nat) : List ChangeEvent :=
  match action.classify trees with
  | .calls nodes => nodes.map (.call index action.kind action.node)
  | .rename oldName newName => [.rename index action.node oldName newName]
  | .ignore => []

/-- The facts that follow from a script, in the order of its actions. -/
def EditScript.events (trees : TreePair) (script : EditScript) : List ChangeEvent :=
  script.zipIdx.flatMap (fun (action, index) => action.events trees index)

end CallDelta

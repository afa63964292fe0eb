/-!
# Edit actions

An edit script is a list of actions that turn the source tree into the destination tree. Insertions
name nodes of the destination tree, all other actions name nodes of the source tree.
-/

namespace CallDelta

/-- One of the two trees that are compared. -/
inductive Side where
  | source
  | destination
  deriving DecidableEq

/-- The name of a side. -/
def Side.name : Side → String
  | source => "source"
  | destination => "destination"

/-- The kinds of actions. -/
inductive ActionKind where
  | insertTree
  | deleteTree
  | insertNode
  | deleteNode
  | updateNode
  | move
  deriving DecidableEq

namespace ActionKind

/-- The name of a kind of action. -/
def name : ActionKind → String
  | insertTree => "insert-tree"
  | deleteTree => "delete-tree"
  | insertNode => "insert-node"
  | deleteNode => "delete-node"
  | updateNode => "update-node"
  | move => "move"

/-- All kinds of actions. -/
def all : List ActionKind := [insertTree, deleteTree, insertNode, deleteNode, updateNode, move]

end ActionKind

/-- One step of an edit script. -/
inductive Action where
  /-- A whole subtree that is only in the destination. -/
  | insertTree (node : Nat) (parent : Option Nat) (position : Nat)
  /-- A whole subtree that is only in the source. -/
  | deleteTree (node : Nat)
  /-- A node that is only in the destination, above nodes that are in both. -/
  | insertNode (node : Nat) (parent : Option Nat) (position : Nat)
  /-- A node that is only in the source, above nodes that are in both. -/
  | deleteNode (node : Nat)
  /-- A node with another label in the destination. -/
  | updateNode (node : Nat) (newLabel : Option String)
  /-- A node with another parent in the destination. -/
  | move (node : Nat) (parent : Nat) (position : Nat)
  deriving DecidableEq

namespace Action

/-- The kind of an action. -/
def kind : Action → ActionKind
  | insertTree .. => .insertTree
  | deleteTree .. => .deleteTree
  | insertNode .. => .insertNode
  | deleteNode .. => .deleteNode
  | updateNode .. => .updateNode
  | move .. => .move

/-- The node that an action is about. -/
def node : Action → Nat
  | insertTree node .. => node
  | deleteTree node => node
  | insertNode node .. => node
  | deleteNode node => node
  | updateNode node _ => node
  | move node .. => node

/-- The tree of the node that an action is about. -/
def side : Action → Side
  | insertTree .. | insertNode .. => .destination
  | deleteTree .. | deleteNode .. | updateNode .. | move .. => .source

end Action

/-- Actions in the order in which they are taken. -/
abbrev EditScript := List Action

/-- The number of actions of a kind. -/
def EditScript.count (script : EditScript) (kind : ActionKind) : Nat :=
  (script.filter (fun a => a.kind == kind)).length

end CallDelta

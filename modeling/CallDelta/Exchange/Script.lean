import CallDelta.Json.Decode
import CallDelta.Script.Action

/-!
# Edit scripts in JSON

An action is an object whose member `kind` says which fields follow, or an array that starts with
the kind. A script is an array of actions.
-/

namespace CallDelta

namespace Side

/-- A side as a value. -/
def toJson (s : Side) : Json := .text s.name

/-- Reads a side. -/
def ofJson? (v : Json) : Option Side := v.asChoice? name [source, destination]

end Side

namespace ActionKind

/-- A kind of action as a value. -/
def toJson (k : ActionKind) : Json := .text k.name

/-- Reads a kind of action. -/
def ofJson? (v : Json) : Option ActionKind := v.asChoice? name all

end ActionKind

namespace Action

/-- The fields of an action beside its kind. -/
def fieldsJson : Action → List (String × Json)
  | insertTree node parent position | insertNode node parent position =>
    [("node", .nat node), ("parent", .opt .nat parent), ("position", .nat position)]
  | deleteTree node | deleteNode node => [("node", .nat node)]
  | updateNode node newLabel => [("node", .nat node), ("new_label", .opt .text newLabel)]
  | move node parent position =>
    [("node", .nat node), ("parent", .nat parent), ("position", .nat position)]

/-- An action as a value. -/
def toJson (a : Action) : Json := .record (("kind", a.kind.toJson) :: a.fieldsJson)

/-- Reads the fields of an insertion. -/
def readInsertion? (make : Nat → Option Nat → Nat → Action) (v : Json) : Option Action :=
  match v.fields? ["node", "parent", "position"] 3 with
  | some [node, parent, position] => do
    let node ← Json.required Json.asNodeId? node
    let parent ← Json.optional Json.asNodeId? parent
    let position ← Json.required Json.asSize? position
    some (make node parent position)
  | _ => none

/-- Reads the fields of a deletion. -/
def readDeletion? (make : Nat → Action) (v : Json) : Option Action :=
  match v.fields? ["node"] 1 with
  | some [node] => (Json.required Json.asNodeId? node).map make
  | _ => none

/-- Reads the fields of an update. -/
def readUpdate? (v : Json) : Option Action :=
  match v.fields? ["node", "new_label"] 2 with
  | some [node, newLabel] => do
    let node ← Json.required Json.asNodeId? node
    let newLabel ← Json.optional Json.asText? newLabel
    some (updateNode node newLabel)
  | _ => none

/-- Reads the fields of a move. -/
def readMove? (v : Json) : Option Action :=
  match v.fields? ["node", "parent", "position"] 3 with
  | some [node, parent, position] => do
    let node ← Json.required Json.asNodeId? node
    let parent ← Json.required Json.asNodeId? parent
    let position ← Json.required Json.asSize? position
    some (move node parent position)
  | _ => none

/-- Reads the fields of an action of a kind. -/
def readFields? (v : Json) : ActionKind → Option Action
  | .insertTree => readInsertion? insertTree v
  | .deleteTree => readDeletion? deleteTree v
  | .insertNode => readInsertion? insertNode v
  | .deleteNode => readDeletion? deleteNode v
  | .updateNode => readUpdate? v
  | .move => readMove? v

/-- The kind with a name. -/
def kindNamed? (v : Json) : Option ActionKind :=
  v.asText?.bind (fun s => ActionKind.all.find? (fun k => k.name == s))

/-- Reads an action. -/
def ofJson? : Json → Option Action
  | .obj members =>
    match Json.member? members "kind" with
    | some (some kind) => (kindNamed? kind).bind (readFields? (.obj members))
    | _ => none
  | .arr (kind :: fields) => (kindNamed? kind).bind (readFields? (.arr fields))
  | _ => none

end Action

namespace EditScript

/-- A script as a value. -/
def toJson (script : EditScript) : Json := .list Action.toJson script

/-- Reads a script. -/
def ofJson? (v : Json) : Option EditScript := v.asList? Action.ofJson?

end EditScript

end CallDelta

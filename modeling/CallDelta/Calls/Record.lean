import CallDelta.Calls.Event
import CallDelta.Calls.Signature

/-!
# Change records

A change record is one reported fact: a call that was inserted or deleted, with its callee and
arguments, or a callee that was renamed. Calls without a callee are left out.
-/

namespace CallDelta

/-- What happened to a call. -/
inductive ChangeKind where
  | inserted
  | deleted
  | renamed
  deriving DecidableEq

namespace ChangeKind

/-- The name of a kind of change. -/
def name : ChangeKind → String
  | inserted => "inserted"
  | deleted => "deleted"
  | renamed => "renamed"

/-- What an action does to the calls below its node. -/
def ofAction? : ActionKind → Option ChangeKind
  | .insertTree | .insertNode => some inserted
  | .deleteTree => some deleted
  | .deleteNode | .updateNode | .move => none

/-- The tree that the changed call is in. -/
def side : ChangeKind → Side
  | deleted => .source
  | inserted | renamed => .destination

end ChangeKind

/-- A reported fact. Actions are counted from 1. -/
structure ChangeRecord where
  actionIndex : Nat
  action : ActionKind
  /-- The type name of the action's node. -/
  nodeType : String
  /-- The span of the action's node. -/
  span : Option Span
  change : ChangeKind
  callee : String
  arguments : List String
  /-- The name before a renaming. -/
  previousCallee : Option String
  deriving DecidableEq

/-- The record of a fact, if it is reported. -/
def ChangeEvent.record? (trees : TreePair) : ChangeEvent → Option ChangeRecord
  | .call index action node callNode => do
    let change ← ChangeKind.ofAction? action
    let tree := trees.side change.side
    let signature := tree.signature callNode
    if signature.isReportable then
      some
        { actionIndex := index + 1, action, change
          nodeType := tree.typeName node, span := tree.span? node
          callee := signature.callee, arguments := signature.arguments, previousCallee := none }
    else
      none
  | .rename index node oldName newName =>
    some
      { actionIndex := index + 1, action := .updateNode, change := .renamed
        nodeType := trees.src.typeName node, span := trees.src.span? node
        callee := newName, arguments := [], previousCallee := some oldName }

/-- The records of a list of facts. -/
def changeRecords (trees : TreePair) (events : List ChangeEvent) : List ChangeRecord :=
  events.filterMap (·.record? trees)

/-- The records of a script. -/
def EditScript.records (trees : TreePair) (script : EditScript) : List ChangeRecord :=
  changeRecords trees (script.events trees)

/-- How many facts of each kind a report has. -/
structure ReportSummary where
  actions : Nat
  inserted : Nat
  deleted : Nat
  renamed : Nat
  deriving DecidableEq

namespace ReportSummary

/-- The summary of records for a script with a number of actions. -/
def ofRecords (actions : Nat) (records : List ChangeRecord) : ReportSummary :=
  let count (kind : ChangeKind) := (records.filter (fun r => r.change == kind)).length
  { actions, inserted := count .inserted, deleted := count .deleted, renamed := count .renamed }

end ReportSummary

end CallDelta
